import VitaMTP.Events.Totals
import VitaMTP.Library.Overlay

/-! Chunks of a file that the device uploads, on POSIX and on Windows. -/
namespace VitaMTP
open Overlay

def PartOfObject.bytes (part : PartOfObject) : List Byte := part.data.take part.size.toNat

def PartOfObject.chunk (part : PartOfObject) : ℕ × List Byte := (part.offset.toNat, part.bytes)

/-- A stream opened with mode `"a+"`: what is in the file stays, and all writes go to its end. -/
structure AppendStream {σ : Type} (posix : Posix σ) : Prop where
  fopen : ∀ {state state' name bytes}, posix.fopen state name = some state' →
    posix.contents state name = some bytes → posix.contents state' name = some bytes
  fwrite : ∀ {state state' name bytes data}, posix.fwrite state name data = (true, state') →
    posix.contents state name = some bytes → posix.contents state' name = some (bytes ++ data)

/-- The calls of the Windows implementation on a file system with states in `τ`. -/
structure Win32 (τ : Type) where
  /-- `CreateFile` with `GENERIC_WRITE` and `OPEN_EXISTING` -/
  createFile : τ → CString → Bool
  /-- `WriteFile` after `SetFilePointer`: how much is written -/
  writeFile : τ → CString → ULong → List Byte → Option (ℕ × τ)
  contents : τ → CString → Option (List Byte)

/-- A write that starts in the file or at its end replaces what is there. -/
def Win32.Positioned {τ : Type} (win : Win32 τ) : Prop :=
  ∀ {state state' name seek bytes data written},
    win.writeFile state name seek data = some (written, state') →
    win.contents state name = some bytes → seek.toNat ≤ bytes.length →
    written ≤ data.length ∧
      win.contents state' name = some (overlay bytes seek.toNat (data.take written))

section windows

variable {τ : Type} (win : Win32 τ)

/-- `writeFileFromBuffer` of Windows. The length becomes a `DWORD`. -/
def writeFileFromBufferWindows (state : τ) (name : CString) (seek : ULong) (data : List Byte) :
    Bool × τ :=
  if win.createFile state name = false ∨ seek.toInt < 0 then (false, state)
  else
    match win.writeFile state name seek (data.take (data.length % 2 ^ 32)) with
    | none => (false, state)
    | some (written, state) => (decide (data.length ≤ written), state)

/-- The parts written one after the other, if all of them succeed. -/
def writePartsWindows (name : CString) : τ → List PartOfObject → Option τ
  | state, [] => some state
  | state, part :: parts =>
    let (written, state) := writeFileFromBufferWindows win state name part.offset part.bytes
    if written then writePartsWindows name state parts else none

end windows

theorem writeFileFromBufferWindows_contents {τ : Type} {win : Win32 τ} (hwin : win.Positioned)
    {state state' : τ} {name : CString} {seek : ULong} {bytes data : List Byte}
    (hwritten : writeFileFromBufferWindows win state name seek data = (true, state'))
    (hbytes : win.contents state name = some bytes) (hseek : seek.toNat ≤ bytes.length) :
    win.contents state' name = some (overlay bytes seek.toNat data) := by
  unfold writeFileFromBufferWindows at hwritten
  split_ifs at hwritten
  · simp at hwritten
  cases hfile : win.writeFile state name seek (data.take (data.length % 2 ^ 32)) with
  | none =>
    rw [hfile] at hwritten
    simp at hwritten
  | some r =>
    obtain ⟨written, state₁⟩ := r
    rw [hfile] at hwritten
    simp only [Prod.mk.injEq, decide_eq_true_eq] at hwritten
    obtain ⟨hall, rfl⟩ := hwritten
    obtain ⟨hmost, hcontents⟩ := hwin hfile hbytes hseek
    rw [List.length_take] at hmost
    -- a length that was cut would show as a short write
    have hlength : data.length % 2 ^ 32 = data.length := by omega
    rw [hcontents, hlength, List.take_length, List.take_of_length_le hall]

theorem writePartsWindows_contents {τ : Type} {win : Win32 τ} (hwin : win.Positioned)
    {name : CString} {parts : List PartOfObject} {state state' : τ} {bytes : List Byte}
    (hwritten : writePartsWindows win name state parts = some state')
    (hbytes : win.contents state name = some bytes)
    (hplaced : Placed bytes (parts.map PartOfObject.chunk)) :
    win.contents state' name = some (overlays bytes (parts.map PartOfObject.chunk)) := by
  induction parts generalizing state bytes with
  | nil =>
    obtain rfl := Option.some.inj hwritten
    exact hbytes
  | cons part parts ih =>
    cases hpart : writeFileFromBufferWindows win state name part.offset part.bytes with
    | mk written state₁ =>
      simp only [writePartsWindows, hpart] at hwritten
      split_ifs at hwritten with hok
      subst hok
      exact ih hwritten (writeFileFromBufferWindows_contents hwin hpart hbytes hplaced.1)
        hplaced.2

section uploads

variable {σ : Type} (posix : Posix σ)

/-- Requests for parts of the object `x`, all of them successful, each with an offset in the file
or at its end. -/
inductive Uploads (x : CmaObject) : Host σ → List PartOfObject → Host σ → Prop
  | nil {s : Host σ} : Uploads x s [] s
  | cons {s s₁ s₂ : Host σ} {part : PartOfObject} {parts : List PartOfObject}
      {bytes : List Byte} (hobject : part.ohfi.toInt = x.ohfi)
      (hbytes : posix.contents s.fs.state x.path = some bytes)
      (hoffset : part.offset.toNat ≤ bytes.length)
      (hpart : vitaEventGetPartOfObject posix s (some part) = some (s₁, [.reportResult .OK]))
      (hparts : Uploads x s₁ parts s₂) : Uploads x s (part :: parts) s₂

/-- After each of the parts the file holds what it held before, with all parts so far at their
offsets, and so does a file on Windows. -/
def Positional {τ : Type} (win : Win32 τ) (x : CmaObject) (original : List Byte) (s : Host σ)
    (parts : List PartOfObject) : Prop :=
  ∀ done, done <+: parts → ∀ t, Uploads posix x s done t →
    posix.contents t.fs.state x.path = some (overlays original (done.map PartOfObject.chunk)) ∧
      ∀ state state', win.contents state x.path = some original →
        writePartsWindows win x.path state done = some state' →
        win.contents state' x.path = posix.contents t.fs.state x.path

end uploads

section run

variable {σ : Type} {posix : Posix σ} {s s' : Host σ} {paths : CmaPaths} {uuid : CString}

theorem writeFileFromBuffer_contents (hstream : AppendStream posix) {fs : Disk σ}
    {name : CString} {seek : ULong} {bytes data : List Byte}
    (hwritten : (writeFileFromBuffer posix fs name seek data).1 = true)
    (hbytes : posix.contents fs.state name = some bytes) :
    posix.contents (writeFileFromBuffer posix fs name seek data).2.state name =
      some (bytes ++ data) := by
  unfold writeFileFromBuffer at hwritten ⊢
  cases hopen : posix.fopen fs.state name with
  | none => simp [hopen, Disk.call] at hwritten
  | some state =>
    rw [hopen] at hwritten
    simp only [Disk.call, Option.isSome_some, Option.getD_some] at hwritten ⊢
    by_cases hseek : seek.toInt < 0
    · simp [hseek] at hwritten
    · simp only [hseek, or_false, if_false, Bool.true_eq_false] at hwritten ⊢
      exact hstream.fwrite (Prod.ext hwritten rfl) (hstream.fopen hopen hbytes)

/-- One part: the object keeps its place in the database, and the data is added to its file. -/
theorem part_appended (hstream : AppendStream posix) (h : WellFormed paths uuid s.db)
    {c : Category} {x : CmaObject} (hx : x ∈ s.db.objects c) {part : PartOfObject}
    (hobject : part.ohfi.toInt = x.ohfi) {bytes : List Byte}
    (hbytes : posix.contents s.fs.state x.path = some bytes)
    (hpart : vitaEventGetPartOfObject posix s (some part) = some (s', [.reportResult .OK])) :
    WellFormed paths uuid s'.db ∧
      (∃ y ∈ s'.db.objects c, y.ohfi = x.ohfi ∧ y.path = x.path) ∧
      posix.contents s'.fs.state x.path = some (bytes ++ part.bytes) := by
  have hhandled := part_handled h hpart
  refine ⟨hhandled.wellFormed h, ?_⟩
  cases hhandled with
  | refused hmsgs => simp at hmsgs
  | written hy hfound hwritten =>
    rw [(h.ohfiToObject_object hx).mpr hobject] at hfound
    obtain ⟨rfl, rfl⟩ := Prod.mk.inj (Option.some.inj hfound)
    refine ⟨?_, writeFileFromBuffer_contents hstream hwritten hbytes⟩
    have hgrown : ∀ o ∈ s.db.objects c, ∃ y ∈
        (s.db.setList c (sizeAdded x.ohfi part.size (s.db.lists c))).objects c,
        y.ohfi = o.ohfi ∧ y.path = o.path := by
      intro o ho
      rw [Database.objects, Database.setList_lists_self, sizeAdded, ← List.map_tail]
      refine ⟨_, List.mem_map_of_mem ho, ?_⟩
      split <;> exact ⟨rfl, rfl⟩
    exact hgrown x hx

theorem Uploads.appended (hstream : AppendStream posix) {c : Category} {x : CmaObject}
    {parts : List PartOfObject} (hrun : Uploads posix x s parts s')
    (h : WellFormed paths uuid s.db)
    (hx : ∃ y ∈ s.db.objects c, y.ohfi = x.ohfi ∧ y.path = x.path) {bytes : List Byte}
    (hbytes : posix.contents s.fs.state x.path = some bytes) :
    posix.contents s'.fs.state x.path =
        some (bytes ++ Overlay.appended (parts.map PartOfObject.chunk)) ∧
      Bounded bytes.length (parts.map PartOfObject.chunk) := by
  induction hrun generalizing bytes with
  | nil =>
    rw [hbytes]
    exact ⟨by simp [Overlay.appended], trivial⟩
  | cons hobject hread hoffset hpart _ ih =>
    obtain ⟨y, hy, hid, hpath⟩ := hx
    obtain rfl := Option.some.inj (hread.symm.trans hbytes)
    obtain ⟨h₁, ⟨z, hz, hidz, hpathz⟩, hbytes₁⟩ := part_appended hstream h hy
      (hobject.trans hid.symm) (hpath ▸ hread) hpart
    obtain ⟨hcontents, hbound⟩ := ih h₁ ⟨z, hz, hidz.trans hid, hpathz.trans hpath⟩
      (hpath ▸ hbytes₁)
    rw [List.length_append] at hbound
    rw [hcontents, List.append_assoc]
    exact ⟨rfl, hoffset, hbound⟩

theorem Uploads.initial {x : CmaObject} {done parts : List PartOfObject}
    (hrun : Uploads posix x s parts s') (hdone : done <+: parts) :
    ∃ t, Uploads posix x s done t := by
  induction hrun generalizing done with
  | nil =>
    obtain rfl := List.prefix_nil.mp hdone
    exact ⟨_, .nil⟩
  | cons hobject hread hoffset hpart _ ih =>
    rcases List.prefix_cons_iff.mp hdone with rfl | ⟨done, rfl, hbefore⟩
    · exact ⟨_, .nil⟩
    · obtain ⟨t, ht⟩ := ih hbefore
      exact ⟨t, .cons hobject hread hoffset hpart ht⟩

/-- Uploads are positional if and only if every part with data starts at the end of the file. -/
theorem upload_positional_iff {allowed : CmaObject → Mask → Prop} {view : DirView} {n : ℕ}
    (hstream : AppendStream posix) {τ : Type} {win : Win32 τ} (hwin : win.Positioned)
    (h : Reachable allowed view n paths uuid s.db) {c : Category} {x : CmaObject}
    (hx : x ∈ s.db.objects c) {original : List Byte}
    (hbytes : posix.contents s.fs.state x.path = some original) {parts : List PartOfObject}
    (hrun : Uploads posix x s parts s') :
    Positional posix win x original s parts ↔
      AtEnd original.length (parts.map PartOfObject.chunk) := by
  have hself : ∃ y ∈ s.db.objects c, y.ohfi = x.ohfi ∧ y.path = x.path := ⟨x, hx, rfl, rfl⟩
  have hbound := (hrun.appended hstream h.wellFormed hself hbytes).2
  constructor
  · intro hpositional
    refine (overlays_eq_appended_iff hbound).mp fun chunks hchunks => ?_
    obtain ⟨done, hdone, rfl⟩ := List.prefix_map_iff.mp hchunks
    obtain ⟨t, ht⟩ := hrun.initial hdone
    have hoverlaid := (hpositional done hdone t ht).1
    rw [(ht.appended hstream h.wellFormed hself hbytes).1] at hoverlaid
    exact (Option.some.inj hoverlaid).symm
  · intro hend done hdone t ht
    have hchunks : done.map PartOfObject.chunk <+: parts.map PartOfObject.chunk := hdone.map _
    have hoverlaid : posix.contents t.fs.state x.path =
        some (overlays original (done.map PartOfObject.chunk)) := by
      rw [(ht.appended hstream h.wellFormed hself hbytes).1,
        (hend.initial hchunks).overlays (hbound.initial hchunks)]
    refine ⟨hoverlaid, fun state state' horiginal hwritten => ?_⟩
    rw [hoverlaid]
    exact writePartsWindows_contents hwin hwritten horiginal
      ((hend.initial hchunks).placed (hbound.initial hchunks))

end run

/-- A file system with the photo of the sample, as its bytes, and nothing else. -/
def uploadPosix : Posix (List Byte) where
  access _ name := name == (sampleObject 2).path
  mkdir _ _ := none
  creat _ _ := none
  fopen state name := if name = (sampleObject 2).path then some state else none
  fwrite state _ data := (true, state ++ data)
  rename _ _ _ := none
  removeAll state _ := state
  contents state name := if name = (sampleObject 2).path then some state else none

def uploadWin32 : Win32 (List Byte) where
  createFile _ name := name == (sampleObject 2).path
  writeFile state _ seek data := some (data.length, overlay state seek.toNat data)
  contents state name := if name = (sampleObject 2).path then some state else none

theorem uploadPosix_append : AppendStream uploadPosix where
  fopen hopen hbytes := by
    simp only [uploadPosix, Option.ite_none_right_eq_some, Option.some.injEq] at hopen hbytes ⊢
    exact ⟨hbytes.1, hopen.2.symm.trans hbytes.2⟩
  fwrite hwrite hbytes := by
    simp only [uploadPosix, Option.ite_none_right_eq_some, Option.some.injEq, Prod.mk.injEq,
      true_and] at hwrite hbytes ⊢
    exact ⟨hbytes.1, by rw [← hwrite, hbytes.2]⟩

theorem uploadWin32_positioned : uploadWin32.Positioned := by
  intro state state' name seek bytes data written hwrite hbytes _
  simp only [uploadWin32, Option.ite_none_right_eq_some, Option.some.injEq, Prod.mk.injEq]
    at hwrite hbytes ⊢
  obtain ⟨rfl, rfl⟩ := hwrite
  rw [List.take_length, hbytes.2]
  exact ⟨le_refl _, hbytes.1, rfl⟩

def uploadHost : Host (List Byte) :=
  { db := sampleDatabase, fs := { state := [1, 2, 3, 4, 5, 6, 7] } }

/-- Two parts, each behind what is there. -/
theorem upload_positional_sample :
    Positional uploadPosix uploadWin32 (sampleObject 2) [1, 2, 3, 4, 5, 6, 7] uploadHost
      [⟨1006, 7, 1, [8]⟩, ⟨1006, 8, 2, [9, 10]⟩] := by
  have hx : sampleObject 2 ∈ uploadHost.db.objects .photos := by decide
  have hrun : ∃ s', Uploads uploadPosix (sampleObject 2) uploadHost
      [⟨1006, 7, 1, [8]⟩, ⟨1006, 8, 2, [9, 10]⟩] s' :=
    ⟨_, .cons rfl rfl (by decide) rfl (.cons rfl rfl (by decide) rfl .nil)⟩
  obtain ⟨s', hrun⟩ := hrun
  exact (upload_positional_iff uploadPosix_append uploadWin32_positioned
    (s := uploadHost) (sample_reachable FolderAddition) hx rfl hrun).mpr
    ⟨Or.inr rfl, Or.inr rfl, trivial⟩

/-- A part that rewrites the first byte ends up behind the file. -/
theorem upload_rewrite :
    (∃ s', Uploads uploadPosix (sampleObject 2) uploadHost [⟨1006, 0, 1, [9]⟩] s' ∧
      uploadPosix.contents s'.fs.state (sampleObject 2).path =
        some [1, 2, 3, 4, 5, 6, 7, 9]) ∧
      (writePartsWindows uploadWin32 (sampleObject 2).path [1, 2, 3, 4, 5, 6, 7]
        [⟨1006, 0, 1, [9]⟩]) = some [9, 2, 3, 4, 5, 6, 7] ∧
      ¬ Positional uploadPosix uploadWin32 (sampleObject 2) [1, 2, 3, 4, 5, 6, 7] uploadHost
        [⟨1006, 0, 1, [9]⟩] := by
  have hrun : ∃ s', Uploads uploadPosix (sampleObject 2) uploadHost [⟨1006, 0, 1, [9]⟩] s' ∧
      uploadPosix.contents s'.fs.state (sampleObject 2).path =
        some [1, 2, 3, 4, 5, 6, 7, 9] :=
    ⟨_, .cons rfl rfl (by decide) rfl .nil, rfl⟩
  refine ⟨hrun, by decide, fun hpositional => ?_⟩
  obtain ⟨s', hrun, hcontents⟩ := hrun
  have hoverlaid := (hpositional _ List.prefix_rfl s' hrun).1
  rw [hcontents] at hoverlaid
  exact absurd hoverlaid (by decide)

end VitaMTP
