import VitaMTP.Events.SendSubtree

/-! A file is sent whole exactly if its length fits the 32 bits of the PTP fields. -/
namespace VitaMTP

/-- `ObjectCompressedSize` of the `PTPObjectInfo`. -/
def objectCompressedSize (m : Metadata) : BitVec 32 := m.size.setWidth 32

section loop

variable {σ : Type} {posix : Posix σ} {fs : Disk σ} {answers : ℕ → Option SendAnswer}

/-- A round that sends its object, and what the loop makes of the nodes behind it. -/
theorem sendNodes_sent {sent : List CmaObject} {parentHandle : BitVec 32} {object : CmaObject}
    {rest : List CmaObject} {data : List Byte} {msg : Message}
    (hread : readObject posix fs object = some data)
    (hmsg : sendObjectMessage (parentHandleOf sent object parentHandle) object data = some msg) :
    ∃ others, (sendNodes posix fs answers sent parentHandle object rest).msgs = msg :: others ∧
      (others = [] ∨ (∃ handle, others = sendEnd handle) ∨ ∃ sent' handle next rest',
        rest = next :: rest' ∧
        others = (sendNodes posix fs answers sent' handle next rest').msgs) := by
  rw [sendNodes.eq_def]
  simp only [hread, hmsg]
  cases answers sent.length with
  | none => exact ⟨[], rfl, Or.inl rfl⟩
  | some a =>
    cases rest with
    | nil => exact ⟨sendEnd a.2, rfl, Or.inr (Or.inl ⟨a.2, rfl⟩)⟩
    | cons next rest =>
      simp only
      split_ifs
      · exact ⟨_, rfl, Or.inr (Or.inr ⟨_, _, next, rest, rfl, rfl⟩)⟩
      · exact ⟨sendEnd a.2, rfl, Or.inr (Or.inl ⟨a.2, rfl⟩)⟩

theorem sendNodes_mem {sent : List CmaObject} {parentHandle : BitVec 32} {object : CmaObject}
    {rest : List CmaObject} {handle : BitVec 32} {m : Metadata} {data : List Byte}
    (h : .sendObject handle m data ∈
      (sendNodes posix fs answers sent parentHandle object rest).msgs) :
    m = object.metadata ∨ ∃ next rest', rest = next :: rest' ∧ ∃ sent' handle',
      .sendObject handle m data ∈ (sendNodes posix fs answers sent' handle' next rest').msgs := by
  cases hread : readObject posix fs object with
  | none =>
    rw [sendNodes.eq_def] at h
    simp [hread] at h
  | some bytes =>
    cases hmsg : sendObjectMessage (parentHandleOf sent object parentHandle) object bytes with
    | none =>
      rw [sendNodes.eq_def] at h
      simp [hread, hmsg] at h
    | some msg =>
      obtain ⟨others, hmsgs, hothers⟩ := @sendNodes_sent _ _ _ answers _ _ _ rest _ _ hread hmsg
      obtain ⟨sentData, rfl⟩ := sendObjectMessage_eq hmsg
      rw [hmsgs, List.mem_cons] at h
      rcases h with h | h
      · left
        exact (Message.sendObject.inj h).2.1
      · rcases hothers with rfl | ⟨handle', rfl⟩ | ⟨sent', handle', next, rest', rfl, rfl⟩
        · simp at h
        · simp [sendEnd] at h
        · exact Or.inr ⟨next, rest', rfl, sent', handle', h⟩

theorem sendNodes_sends {sent : List CmaObject} {parentHandle : BitVec 32} {object : CmaObject}
    {rest : List CmaObject} {handle : BitVec 32} {m : Metadata} {data : List Byte}
    (h : .sendObject handle m data ∈
      (sendNodes posix fs answers sent parentHandle object rest).msgs) :
    ∃ y ∈ object :: rest, m = y.metadata := by
  induction rest generalizing sent parentHandle object with
  | nil =>
    obtain rfl | ⟨_, _, he, -⟩ := sendNodes_mem h
    · exact ⟨object, by simp, rfl⟩
    · simp at he
  | cons next rest ih =>
    obtain rfl | ⟨next', rest', he, sent', handle', hothers⟩ := sendNodes_mem h
    · exact ⟨object, by simp, rfl⟩
    · obtain ⟨rfl, rfl⟩ := List.cons.inj he
      obtain ⟨y, hy, rfl⟩ := ih hothers
      exact ⟨y, List.mem_cons_of_mem _ hy, rfl⟩

end loop

/-- If the request for the file `x` is reported as done, its announced size and its data are those
of the file, it is never sent in another way, and a file too long for the fields is an error. -/
def SentWhole (x : CmaObject) (bytes : List Byte) (msgs : List Message) : Prop :=
  (SendCompleted msgs → ∃ handle, .sendObject handle x.metadata bytes ∈ msgs) ∧
    (∀ handle m data, .sendObject handle m data ∈ msgs → m.ohfi = x.ohfi →
      data = bytes ∧ (objectCompressedSize m).toNat = bytes.length) ∧
    (2 ^ 32 ≤ bytes.length → ∃ code, code ≠ .OK ∧ msgs = [.reportResult code])

section whole

variable {σ : Type} {posix : Posix σ} {s : Host σ}

theorem sendObjectMessage_file {x : CmaObject} {bytes : List Byte} (hfile : x.isFile = true)
    (hfolder : x.isFolder = false)
    (hbytes : posix.contents s.fs.state x.path = some bytes)
    (hsize : x.metadata.size.toNat = bytes.length) (parentHandle : BitVec 32) :
    ∃ data, readObject posix s.fs x = some data ∧
      sendObjectMessage parentHandle x data =
        some (.sendObject parentHandle x.metadata (bytes.take (bytes.length % 2 ^ 32))) := by
  have hnarrow : (x.metadata.size.setWidth 32).toNat = bytes.length % 2 ^ 32 := by
    rw [BitVec.toNat_setWidth, hsize]
  have hbuf : bufferLength bytes.length (x.metadata.size.setWidth 32) =
      bytes.length % 2 ^ 32 := by
    unfold bufferLength
    split
    · rfl
    · exact hnarrow
  refine ⟨bytes.take (bytes.length % 2 ^ 32), ?_, ?_⟩
  · have hmod := Nat.mod_le bytes.length (2 ^ 32)
    rw [readObject, if_pos hfile, readFileToBuffer_eq hbytes, hbuf, if_pos ⟨by decide, hmod⟩]
    rfl
  · rw [sendObjectMessage, hfolder, hfile, hnarrow]
    simp

/-- The request for a file starts with the file, cut to the length its fields have room for. -/
theorem vitaEventSendObject_file {paths : CmaPaths} {uuid : CString}
    (h : WellFormed paths uuid s.db) {event : Event} {c : Category} {x : CmaObject}
    (hfound : ohfiToObject s.db event.param2.toInt = some (c, x)) (hfile : x.isFile = true)
    (hfolder : x.isFolder = false) {bytes : List Byte}
    (hbytes : posix.contents s.fs.state x.path = some bytes)
    (hsize : x.metadata.size.toNat = bytes.length) (answers : ℕ → Option SendAnswer) :
    ∃ handle others, (vitaEventSendObject posix s event answers).2 =
        .sendObject handle x.metadata (bytes.take (bytes.length % 2 ^ 32)) :: others ∧
      ∀ handle m data, .sendObject handle m data ∈ others → m.ohfi ≠ x.ohfi := by
  obtain ⟨p, q, hl⟩ := List.append_of_mem (h.ohfiToObject_eq_some.mp hfound).1
  obtain ⟨hp, hbehind⟩ := ohfi_ne_of_split hl (h.ohfi_nodup c)
  have hmsgs : (vitaEventSendObject posix s event answers).2 =
      (sendNodes posix s.fs answers [] event.param3 x q).msgs := by
    simp only [vitaEventSendObject, hfound, hl, (takeWhile_dropWhile_split hp).2, List.tail_cons]
  obtain ⟨data, hread, hmsg⟩ := sendObjectMessage_file hfile hfolder hbytes hsize
    (parentHandleOf [] x event.param3)
  obtain ⟨others, hsent, hothers⟩ := @sendNodes_sent _ _ _ answers _ _ _ q _ _ hread hmsg
  refine ⟨_, others, hmsgs.trans hsent, fun handle m data hmem => ?_⟩
  rcases hothers with rfl | ⟨handle', rfl⟩ | ⟨sent', handle', next, rest', rfl, rfl⟩
  · simp at hmem
  · simp [sendEnd] at hmem
  · obtain ⟨y, hy, rfl⟩ := sendNodes_sends hmem
    exact hbehind y hy

/-- A file is sent whole or refused if and only if its length fits 32 bits. -/
theorem send_whole_iff {allowed : CmaObject → Mask → Prop} {view : DirView} {n : ℕ}
    {paths : CmaPaths} {uuid : CString} (h : Reachable allowed view n paths uuid s.db)
    {event : Event} {c : Category} {x : CmaObject}
    (hfound : ohfiToObject s.db event.param2.toInt = some (c, x)) (hfile : x.isFile = true)
    (hfolder : x.isFolder = false) {bytes : List Byte}
    (hbytes : posix.contents s.fs.state x.path = some bytes)
    (hsize : x.metadata.size.toNat = bytes.length) (answers : ℕ → Option SendAnswer) :
    SentWhole x bytes (vitaEventSendObject posix s event answers).2 ↔ bytes.length < 2 ^ 32 := by
  obtain ⟨handle, others, hmsgs, hothers⟩ :=
    vitaEventSendObject_file h.wellFormed hfound hfile hfolder hbytes hsize answers
  rw [hmsgs]
  constructor
  · rintro ⟨-, -, hrefused⟩
    by_contra hlong
    obtain ⟨code, -, he⟩ := hrefused (by omega)
    simp at he
  · intro hshort
    have htake : bytes.take (bytes.length % 2 ^ 32) = bytes := by
      rw [Nat.mod_eq_of_lt hshort, List.take_length]
    rw [htake]
    refine ⟨fun _ => ⟨handle, List.mem_cons_self ..⟩, fun handle m data hmem hid => ?_,
      fun hlong => by omega⟩
    rcases List.mem_cons.mp hmem with he | hmem
    · obtain ⟨-, rfl, rfl⟩ := Message.sendObject.inj he
      rw [objectCompressedSize, BitVec.toNat_setWidth, hsize, Nat.mod_eq_of_lt hshort]
      exact ⟨rfl, rfl⟩
    · exact absurd hid (hothers handle m data hmem)

end whole

/-- The photo of the sample has seven bytes, in the database and on disk. -/
theorem send_whole_sample :
    SentWhole (sampleObject 2) [1, 2, 3, 4, 5, 6, 7] (vitaEventSendObject readablePosix
      (sampleHost sampleDatabase) { param2 := 1006 } sampleAnswers).2 := by
  have hfound : ohfiToObject (sampleHost sampleDatabase).db 1006 =
      some (.photos, sampleObject 2) := by decide +kernel
  exact (@send_whole_iff _ readablePosix (sampleHost sampleDatabase) _ _ _ _ _
    (sample_reachable FolderAddition) { param2 := 1006 } _ _ hfound (by decide) (by decide) _ rfl
    (by decide) sampleAnswers).mpr (by decide)

/-- The sample with a file of 4 GiB in its folder. -/
def longDatabase : Database :=
  (addToDatabase sampleDatabase .photos (sampleObject 1) ['y'] (2 ^ 32) DataType.File).1

def longObject : CmaObject := newObject 1007 (sampleObject 1) ['y'] (2 ^ 32) DataType.File

def longPosix : Posix Unit :=
  { samplePosix with contents := fun _ _ => some (List.replicate (2 ^ 32) 0) }

/-- Of the long file nothing is sent, and that is reported as done. -/
theorem send_whole_long :
    Reachable FolderAddition sampleView 3 samplePaths ['0'] longDatabase ∧
      longObject ∈ longDatabase.objects .photos ∧
      longPosix.contents () longObject.path = some (List.replicate (2 ^ 32) 0) ∧
      longObject.metadata.size.toNat = 2 ^ 32 ∧
      ¬ SentWhole longObject (List.replicate (2 ^ 32) 0) (vitaEventSendObject longPosix
        (sampleHost longDatabase) { param2 := 1007 } sampleAnswers).2 := by
  have h : Reachable FolderAddition sampleView 3 samplePaths ['0'] longDatabase :=
    (sample_reachable FolderAddition).step
      (.add (by simp [sample_photos]) ['y'] (2 ^ 32) DataType.File ⟨Or.inl (by decide), Or.inr rfl⟩)
  have hfound : ohfiToObject (sampleHost longDatabase).db 1007 = some (.photos, longObject) := by
    decide +kernel
  have hsize : longObject.metadata.size.toNat = 2 ^ 32 := by decide
  have hlength : (List.replicate (2 ^ 32) (0 : Byte)).length = 2 ^ 32 := List.length_replicate
  obtain ⟨handle, others, hmsgs, -⟩ := @vitaEventSendObject_file _ longPosix
    (sampleHost longDatabase) _ _ h.wellFormed { param2 := 1007 } _ _ hfound (by decide)
    (by decide) (List.replicate (2 ^ 32) 0) rfl (hsize.trans hlength.symm) sampleAnswers
  refine ⟨h, by decide, rfl, hsize, ?_⟩
  rintro ⟨-, -, hrefused⟩
  obtain ⟨code, -, he⟩ := hrefused hlength.ge
  rw [hmsgs] at he
  cases he

end VitaMTP
