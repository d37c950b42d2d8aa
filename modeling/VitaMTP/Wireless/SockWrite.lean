import Mathlib.Data.BitVec
import Mathlib.Data.Int.Notation
import Mathlib.Data.List.Basic

/-! `VitaMTP_Sock_Write_All`: what is accepted in many pieces is sent once. -/
namespace VitaMTP

/-- A connected socket: what `sendto` returns when it is called for the `n`-th time and offered
`data`. It fails, or it takes at least one byte if there is one. -/
structure SendSocket (β : Type) where
  sendto : ℕ → List β → ℤ
  range : ∀ n data, -2 ^ 63 ≤ sendto n data ∧ sendto n data < 2 ^ 63
  accepts : ∀ n data, sendto n data < 0 ∨ (1 ≤ sendto n data ∧ sendto n data ≤ data.length) ∨
    (data = [] ∧ sendto n data = 0)

variable {β : Type}

/-- The loop, for at most `fuel` calls; `sent` are the pieces accepted so far. The result is
compared as a machine word with the length, before it is looked at as an error. -/
def writeLoop (sendto : ℕ → List β → ℤ) : ℕ → ℕ → List β → List (List β) →
    Option (ℤ × List (List β))
  | 0, _, _, _ => none
  | fuel + 1, n, data, sent =>
    let clen := sendto n data
    if clen % 2 ^ 64 = data.length then some (0, sent ++ [data.take clen.toNat])
    else if clen < 0 then some (-1, sent)
    else writeLoop sendto fuel (n + 1) (data.drop clen.toNat) (sent ++ [data.take clen.toNat])

/-- A call for every byte and one more are enough. -/
def sockWriteAll (sendto : ℕ → List β → ℤ) (data : List β) : Option (ℤ × List (List β)) :=
  writeLoop sendto (data.length + 1) 0 data []

/-- How a call ends: with everything sent, or with a part of it. -/
structure WriteResult (data : List β) (ret : ℤ) (sent : List (List β)) : Prop where
  returns : ret = 0 ∨ ret = -1
  all : ret = 0 → sent.flatten = data
  part : ret = -1 → sent.flatten <+: data ∧ (data ≠ [] → sent.flatten ≠ data)

/-- No error looks like the length of what was offered. -/
def SendSocket.NoWrap (socket : SendSocket β) (data : List β) : Prop :=
  ∀ n rest, rest <:+ data → socket.sendto n rest < 0 →
    socket.sendto n rest % 2 ^ 64 ≠ rest.length

theorem SendSocket.noWrap_of_length (socket : SendSocket β) {data : List β}
    (h : data.length < 2 ^ 63) : socket.NoWrap data := by
  intro n rest hrest hneg
  have hle := hrest.length_le
  have hrange := socket.range n rest
  omega

theorem WriteResult.cons {data : List β} {k : ℕ} {ret : ℤ} {sent : List (List β)}
    (h : WriteResult (data.drop k) ret sent) (hk : k < data.length) :
    WriteResult data ret (data.take k :: sent) := by
  have hparts := List.take_append_drop k data
  refine ⟨h.returns, fun hret => ?_, fun hret => ?_⟩
  · rw [List.flatten_cons, h.all hret, hparts]
  · obtain ⟨hpart, hproper⟩ := h.part hret
    have hrest : data.drop k ≠ [] := by
      rw [ne_eq, List.drop_eq_nil_iff]
      omega
    rw [List.flatten_cons]
    constructor
    · conv_rhs => rw [← hparts]
      exact (List.prefix_append_right_inj _).mpr hpart
    · intro _ heq
      conv_rhs at heq => rw [← hparts]
      exact hproper hrest (List.append_cancel_left heq)

/-- The loop ends. As long as something is left, a call ends it or takes a byte. -/
theorem writeLoop_written (socket : SendSocket β) {fuel n : ℕ} {data : List β}
    {sent : List (List β)} (hsize : data.length < 2 ^ 64) (hwrap : socket.NoWrap data)
    (hfuel : data.length + 1 ≤ fuel) :
    ∃ ret runs, writeLoop socket.sendto fuel n data sent = some (ret, sent ++ runs) ∧
      WriteResult data ret runs := by
  induction fuel generalizing n data sent with
  | zero => omega
  | succ fuel ih =>
    have hself := hwrap n data (List.suffix_refl _)
    have haccepts := socket.accepts n data
    rw [writeLoop]
    by_cases hneg : socket.sendto n data < 0
    · rw [if_neg (hself hneg), if_pos hneg]
      refine ⟨-1, [], by rw [List.append_nil], Or.inr rfl, by simp, fun _ => ?_⟩
      exact ⟨List.nil_prefix, fun hne => Ne.symm hne⟩
    · obtain ⟨k, hk⟩ := Int.eq_ofNat_of_zero_le (Int.not_lt.mp hneg)
      have hle : k ≤ data.length := by
        rcases haccepts with h | h | h
        · omega
        · omega
        · omega
      have hmod : socket.sendto n data % 2 ^ 64 = k := by omega
      have hnat : (socket.sendto n data).toNat = k := by omega
      rw [hmod, hnat, if_neg hneg]
      by_cases hall : k = data.length
      · rw [if_pos (by omega)]
        refine ⟨0, [data.take k], rfl, Or.inl rfl, fun _ => ?_, by simp⟩
        rw [List.flatten_singleton, hall, List.take_length]
      · rw [if_neg (by omega)]
        have hpos : 1 ≤ k := by
          rcases haccepts with h | h | h
          · omega
          · omega
          · rw [h.1, List.length_nil] at hall hle
            omega
        have hlength := List.length_drop (i := k) (l := data)
        obtain ⟨ret, runs, hrun, hwritten⟩ := @ih (n + 1) (data.drop k) (sent ++ [data.take k])
          (by omega) (fun n rest hrest => hwrap n rest (hrest.trans (List.drop_suffix k data)))
          (by omega)
        refine ⟨ret, data.take k :: runs, ?_, hwritten.cons (by omega)⟩
        rw [hrun, List.append_assoc, List.singleton_append]

/-- Whatever the socket takes at a time: the call ends, and what was accepted is the whole
buffer, or a part of it that only an empty buffer is equal to. -/
theorem sockWriteAll_written (socket : SendSocket β) (data : List β) (hsize : data.length < 2 ^ 64)
    (hwrap : socket.NoWrap data) :
    ∃ ret sent, sockWriteAll socket.sendto data = some (ret, sent) ∧ WriteResult data ret sent :=
  writeLoop_written socket hsize hwrap (Nat.le_refl _)

def byteSocket (β : Type) : SendSocket β where
  sendto _ data := if data = [] then 0 else 1
  range n data := by
    split
    · omega
    · omega
  accepts n data := by
    cases data with
    | nil => simp
    | cons x xs =>
      rw [if_neg (List.cons_ne_nil _ _), List.length_cons]
      omega

def closedSocket (β : Type) : SendSocket β where
  sendto _ _ := -1
  range _ _ := by omega
  accepts _ _ := Or.inl (by omega)

theorem sockWriteAll_written_bytes :
    ∃ ret sent, sockWriteAll (byteSocket Char).sendto "ab".toList = some (ret, sent) ∧
      WriteResult "ab".toList ret sent :=
  sockWriteAll_written (byteSocket Char) "ab".toList (by decide)
    ((byteSocket Char).noWrap_of_length (by decide))

/-- Of an empty buffer, what is accepted before an error is all of it. -/
theorem sockWriteAll_empty :
    ¬ ∀ (socket : SendSocket Char) (data : List Char), data.length < 2 ^ 63 →
      ∃ ret sent, sockWriteAll socket.sendto data = some (ret, sent) ∧
        (ret = 0 → sent.flatten = data) ∧
        (ret = -1 → sent.flatten <+: data ∧ sent.flatten ≠ data) := by
  intro h
  obtain ⟨ret, sent, hrun, -, hpart⟩ := h (closedSocket Char) [] (by decide)
  obtain ⟨rfl, rfl⟩ := Prod.mk.inj (Option.some.inj hrun)
  exact (hpart rfl).2 rfl

end VitaMTP
