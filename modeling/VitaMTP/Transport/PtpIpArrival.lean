import VitaMTP.Transport.Session

/-! How the bytes of the device are cut on their way makes no difference, whatever they are. -/
namespace VitaMTP
open Pieces

/-- The same bytes, in other pieces. -/
def SameContent (s s' : List (Piece Byte)) : Prop := content s = content s'

section reads

variable {s s' : List (Piece Byte)}

theorem genericRead_congr (h : SameContent s s') :
    Same SameContent (genericRead s) (genericRead s') := by
  obtain ⟨hhdr, hrest⟩ := readExact_congr 8 h
  rcases hread : readExact 8 s with ⟨xhdr, s₁⟩
  rcases hread' : readExact 8 s' with ⟨xhdr', s₁'⟩
  rw [hread, hread'] at hhdr hrest
  obtain rfl : xhdr = xhdr' := hhdr
  unfold genericRead
  rw [hread, hread']
  cases xhdr with
  | none => exact ⟨rfl, hrest⟩
  | some xhdr =>
    dsimp only
    split
    · exact ⟨rfl, hrest⟩
    obtain ⟨hdata, hrest₂⟩ := readExact_congr ((dtoh32a xhdr 0 - 8).toInt).toNat hrest
    rcases hread₂ : readExact ((dtoh32a xhdr 0 - 8).toInt).toNat s₁ with ⟨data, s₂⟩
    rcases hread₂' : readExact ((dtoh32a xhdr 0 - 8).toInt).toNat s₁' with ⟨data', s₂'⟩
    rw [hread₂, hread₂'] at hdata hrest₂
    obtain rfl : data = data' := hdata
    cases data with
    | none => exact ⟨rfl, hrest₂⟩
    | some data => exact ⟨rfl, hrest₂⟩

theorem genericRead_cases (h : SameContent s s') :
    (∃ s₁ s₁', genericRead s = (none, s₁) ∧ genericRead s' = (none, s₁') ∧ SameContent s₁ s₁') ∨
      ∃ hdr data s₁ s₁', genericRead s = (some (hdr, data), s₁) ∧
        genericRead s' = (some (hdr, data), s₁') ∧ SameContent s₁ s₁' := by
  have hsame := genericRead_congr h
  rcases hread : genericRead s with ⟨got, s₁⟩
  rcases hread' : genericRead s' with ⟨got', s₁'⟩
  rw [hread, hread'] at hsame
  obtain ⟨hgot, hrest⟩ := hsame
  obtain rfl : got = got' := hgot
  cases got with
  | none => exact Or.inl ⟨s₁, s₁', rfl, rfl, hrest⟩
  | some got => exact Or.inr ⟨got.1, got.2, s₁, s₁', rfl, rfl, hrest⟩

theorem ptpipGetdataLoop_congr (toread : ℕ) (acc : List Byte) (h : SameContent s s') :
    Option.Rel (Same₂ SameContent) (ptpipGetdataLoop toread acc s)
      (ptpipGetdataLoop toread acc s') := by
  obtain ⟨n, hn⟩ : ∃ n, (content s).length = n := ⟨_, rfl⟩
  induction n using Nat.strong_induction_on generalizing acc s s' with
  | _ n ih =>
    by_cases hlt : acc.length < toread
    case neg =>
      rw [ptpipGetdataLoop, ptpipGetdataLoop, if_neg hlt, if_neg hlt]
      exact .some ⟨rfl, rfl, h⟩
    rcases genericRead_cases h with ⟨s₁, s₁', hread, hread', hrest⟩ |
      ⟨hdr, xdata, s₁, s₁', hread, hread', hrest⟩
    · rw [ptpipGetdataLoop_end hlt hread, ptpipGetdataLoop_end hlt hread']
      exact .some ⟨rfl, rfl, hrest⟩
    have hsmaller := genericRead_lt hread
    rw [ptpipGetdataLoop_read hlt hread, ptpipGetdataLoop_read hlt hread']
    split_ifs
    · exact .some ⟨rfl, rfl, hrest⟩
    · cases memcpy? xdata 4 (hdr.length - 8 - 4).toNat with
      | none => exact .none
      | some block => exact ih _ (hn ▸ hsmaller) (acc ++ block) hrest rfl
    · exact ih _ (hn ▸ hsmaller) acc hrest rfl

theorem ptpipGetdata_congr (h : SameContent s s') :
    Option.Rel (Same₂ SameContent) (ptpipGetdata s) (ptpipGetdata s') := by
  unfold ptpipGetdata
  rcases genericRead_cases h with ⟨s₁, s₁', hread, hread', hrest⟩ |
    ⟨hdr, xdata, s₁, s₁', hread, hread', hrest⟩
  all_goals
    rw [hread, hread']
    dsimp only
  · exact .some ⟨rfl, rfl, hrest⟩
  · split_ifs
    · exact .none
    · exact .some ⟨rfl, rfl, hrest⟩
    · exact .some ⟨rfl, rfl, hrest⟩
    · exact .none
    · exact ptpipGetdataLoop_congr _ _ hrest

theorem ptpipGetresp_congr (resp : PTPContainer) (h : SameContent s s') :
    Option.Rel (Same₂ SameContent) (ptpipGetresp resp s) (ptpipGetresp resp s') := by
  unfold ptpipGetresp
  rcases genericRead_cases h with ⟨s₁, s₁', hread, hread', hrest⟩ |
    ⟨hdr, data, s₁, s₁', hread, hread', hrest⟩
  all_goals
    rw [hread, hread']
    dsimp only
  · exact .some ⟨rfl, rfl, hrest⟩
  · split_ifs
    · exact .none
    · exact .some ⟨rfl, rfl, hrest⟩
    · exact .some ⟨rfl, rfl, hrest⟩

end reads

/-- What has been written is the same, and what is still to be read. -/
def SameLink (s s' : IpLink) : Prop := s.out = s'.out ∧ SameContent s.cmd s'.cmd

theorem ptpip_simulates (socket : Socket) :
    (ptpip socket).Simulates (ptpip socket) SameLink where
  sendreq ptp s s' h := by
    rw [ptpip_sendreq, ptpip_sendreq, h.1]
    exact ⟨rfl, rfl, h.2⟩
  senddata ptp data s s' h := by
    obtain ⟨out, cmd⟩ := s
    obtain ⟨out', cmd'⟩ := s'
    obtain ⟨hout, hcmd⟩ := h
    obtain rfl : out = out' := hout
    exact ⟨rfl, rfl, hcmd⟩
  getdata ptp s s' h := by
    dsimp only [ptpip]
    rw [Option.map_eq_bind, Option.map_eq_bind]
    apply rel_bind (ptpipGetdata_congr h.2)
    rintro ⟨ret, data, cmd⟩ ⟨ret', data', cmd'⟩ ⟨rfl, rfl, hcmd⟩
    exact .some ⟨rfl, rfl, h.1, hcmd⟩
  getresp resp s s' h := by
    dsimp only [ptpip]
    rw [Option.map_eq_bind, Option.map_eq_bind]
    apply rel_bind (ptpipGetresp_congr resp h.2)
    rintro ⟨ret, resp, cmd⟩ ⟨ret', resp', cmd'⟩ ⟨rfl, rfl, hcmd⟩
    exact .some ⟨rfl, rfl, h.1, hcmd⟩
  cancelreq id s s' h := .none

/-- Whatever the device sends, and whatever calls are made: how its bytes are cut on their way
decides neither what the calls return nor what data they get, nor where a read goes outside of a
packet, nor what is written. -/
theorem runCalls_arrival (socket : Socket) (calls : List Call) (params : PTPParams)
    {s s' : IpLink} (hout : s.out = s'.out) (hcmd : content s.cmd = content s'.cmd) :
    Option.Rel (Same₂ SameLink) (runCalls (ptpip socket) calls params s)
      (runCalls (ptpip socket) calls params s') :=
  (ptpip_simulates socket).runCalls calls params ⟨hout, hcmd⟩

theorem runCalls_arrival_sample :
    Option.Rel (Same₂ SameLink)
      (runCalls (ptpip takingSocket) [getCall] { transactionId := 1 } (trickle servedBytes))
      (runCalls (ptpip takingSocket) [getCall] { transactionId := 1 }
        { cmd := [⟨servedBytes, List.ne_nil_of_length_pos (by decide)⟩] }) :=
  runCalls_arrival takingSocket [getCall] { transactionId := 1 } rfl
    ((content_trickle servedBytes).trans (by rw [content_cons, content_nil, List.append_nil]))

end VitaMTP
