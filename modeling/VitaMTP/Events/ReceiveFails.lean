import VitaMTP.Events.ReceiveTree

/-! What a failed receive leaves behind in the database. -/
namespace VitaMTP
open ParentFirst

def CmaObject.idAndSize (o : CmaObject) : ℤ × ULong := (o.ohfi, o.metadata.size)

/-- The same objects in the same order with the same sizes, but for one object that had the path
of the received root and may be gone with what is below it. -/
def NoTrace (db db' : Database) (c : Category) (parent : CmaObject) (name : Option CString) :
    Prop :=
  (∀ d, d ≠ c → (db'.lists d).map CmaObject.idAndSize = (db.lists d).map CmaObject.idAndSize) ∧
  ((db'.lists c).map CmaObject.idAndSize = (db.lists c).map CmaObject.idAndSize ∨
    ∃ root x, name = some root ∧ x ∈ db.objects c ∧
      x.metadata.path = some (parent.relPrefix ++ root) ∧
      (db'.lists c).map CmaObject.idAndSize =
        (withoutNodes x.ohfi (db.lists c)).map CmaObject.idAndSize)

section receive

variable {σ : Type} (posix : Posix σ)

/-- The disk after what has the name of the received root was deleted. -/
def clearedDisk (s : Host σ) (parent : CmaObject) (name : Option CString) : Disk σ :=
  match name.bind fun name => pathToObject s.db name parent.ohfi with
  | none => s.fs
  | some (_, temp) => deleteAll posix s.fs temp.path

/-- The size of the files of the tree that can be written below `parent` before the first object
that cannot be received. -/
def bytesBeforeFailure (s : Host σ) (parent : CmaObject) (t : DeviceObject) : ULong :=
  (writeTree posix parent.isFile parent.path t (clearedDisk posix s parent t.name?)).bytes

theorem cleared_fs (s : Host σ) (parent : CmaObject) (name : Option CString) :
    (cleared posix s parent.ohfi name).fs = clearedDisk posix s parent name := by
  unfold cleared clearedDisk
  cases name.bind fun name => pathToObject s.db name parent.ohfi <;> rfl

end receive

/-- A failed receive leaves no trace exactly if the files received before the failure add up to
nothing: their sizes stay in `parent` and in everything above it. -/
theorem receive_failure_iff {allowed : CmaObject → Mask → Prop} {view : DirView} {n : ℕ}
    {paths : CmaPaths} {uuid : CString} {σ : Type} {posix : Posix σ} {s s' : Host σ}
    (h : Reachable allowed view n paths uuid s.db) {c : Category} {parent : CmaObject}
    (hp : parent ∈ s.db.lists c) {t : DeviceObject} {ret : ResultCode}
    (hres : vitaGetAllObjects posix c parent.ohfi t s = some (ret, s')) (hfail : ret ≠ .OK) :
    NoTrace s.db s'.db c parent t.name? ↔ bytesBeforeFailure posix s parent t = 0 := by
  have hwf := h.wellFormed
  have hr := vitaGetAllObjects_receives posix paths uuid t s s' c parent ret hwf hp hres
  have hwok : (writeTree posix parent.isFile parent.path t
      (cleared posix s parent.ohfi t.name?).fs).ok = false := by
    rw [← Bool.not_eq_true, ← hr.ok]
    exact hfail
  obtain ⟨rest, count, rfl, -, hdb⟩ := hr.failed hwok
  rw [cleared_fs] at hdb
  change s'.db = (cleared posix s parent.ohfi t.name?).db.grown c parent.ohfi
    (bytesBeforeFailure posix s parent t) [] count at hdb
  generalize bytesBeforeFailure posix s parent t = bytes at hdb ⊢
  have hp₀ := cleared_parent posix hwf hp t.name?
  constructor
  · rintro ⟨-, hsame⟩
    -- the parent itself has grown
    have hgrown : (parent.ohfi, parent.metadata.size + bytes) ∈
        (s'.db.lists c).map CmaObject.idAndSize := by
      rw [hdb, Database.grown_lists_self, List.append_nil]
      refine List.mem_map.mpr ⟨parent.addSize bytes, ?_, rfl⟩
      exact List.mem_map.mpr ⟨parent, hp₀, if_pos .refl⟩
    have hbefore : (parent.ohfi, parent.metadata.size + bytes) ∈
        (s.db.lists c).map CmaObject.idAndSize := by
      rcases hsame with he | ⟨root, x, -, -, -, he⟩
      · exact he ▸ hgrown
      · rw [he] at hgrown
        have hsub : (withoutNodes x.ohfi (s.db.lists c)).Sublist (s.db.lists c) :=
          without_sublist _ _
        exact (hsub.map _).subset hgrown
    obtain ⟨y, hy, he⟩ := List.mem_map.mp hbefore
    obtain ⟨hid, hsize⟩ := Prod.mk.inj he
    obtain rfl := (hwf.ordered c).inj hy hp hid
    change y.metadata.size = y.metadata.size + bytes at hsize
    bv_omega
  · intro hzero
    rw [hzero] at hdb
    have hlists (d : Category) :
        s'.db.lists d = (cleared posix s parent.ohfi t.name?).db.lists d := by
      rw [hdb]
      by_cases hd : d = c
      · subst hd
        rw [Database.grown_lists_self, sizeAdded_zero, List.append_nil]
      · rw [Database.grown_lists_of_ne hd]
    cases hname : t.name? with
    | none =>
      rw [hname] at hlists
      exact ⟨fun d _ => by rw [hlists d]; rfl, Or.inl (by rw [hlists c]; rfl)⟩
    | some name =>
      rw [hname] at hlists
      refine ⟨fun d hd => by rw [hlists d, cleared_lists_of_ne posix hwf hp name hd], ?_⟩
      rcases cleared_cases posix hwf hp name with ⟨-, he⟩ | ⟨temp, htemp, -, hfound, he⟩
      · exact Or.inl (by rw [hlists c, he])
      · obtain ⟨-, hpath⟩ := found_path hwf hp hfound
        refine Or.inr ⟨name, temp, rfl, htemp, hpath, ?_⟩
        rw [hlists c, he]
        simp

/-- A tree in which the photo `y` comes through and the next object does not. -/
def brokenTree (size : ULong) (data : List Byte) : DeviceObject :=
  .folder ['e'] 7 [.file ['y'] 8 size data, .unavailable]

theorem hostAfter_eq {s : Host Unit} {result : Option (ResultCode × Host Unit)} {ret : ResultCode}
    (h : result.map Prod.fst = some ret) : result = some (ret, hostAfter s result) := by
  obtain ⟨⟨ret', s'⟩, hr, rfl⟩ := Option.map_eq_some_iff.mp h
  rw [hr]
  rfl

def brokenReceive (size : ULong) (data : List Byte) : Option (ResultCode × Host Unit) :=
  vitaGetAllObjects samplePosix .photos 2 (brokenTree size data) (sampleHost sampleDatabase)

/-- With an empty photo there is nothing to leave behind. -/
theorem receive_failure_sample :
    NoTrace sampleDatabase (hostAfter (sampleHost sampleDatabase) (brokenReceive 0 [])).db
      .photos (sampleObject 0) (some ['e']) := by
  have hp : sampleObject 0 ∈ sampleDatabase.lists .photos := by simp [sample_photos]
  have hret : (brokenReceive 0 []).map Prod.fst = some .Invalid_Data := by decide +kernel
  have hres := hostAfter_eq (s := sampleHost sampleDatabase) hret
  exact (receive_failure_iff (s := sampleHost sampleDatabase) (t := brokenTree 0 [])
    (sample_reachable FolderAddition) hp hres (by decide)).mpr (by decide)

/-- The three bytes of a photo that was taken out again stay in the size of the category. -/
theorem receive_failure_traces :
    (brokenReceive 3 [1, 2, 3]).map Prod.fst = some .Invalid_Data ∧
      ¬ NoTrace sampleDatabase
        (hostAfter (sampleHost sampleDatabase) (brokenReceive 3 [1, 2, 3])).db
        .photos (sampleObject 0) (some ['e']) := by
  have hafter : ((hostAfter (sampleHost sampleDatabase) (brokenReceive 3 [1, 2, 3])).db.lists
      .photos).map CmaObject.idAndSize = [(2, 4106), (1005, 4103), (1006, 7)] := by
    decide +kernel
  have hbefore : (sampleDatabase.lists .photos).map CmaObject.idAndSize =
      [(2, 4103), (1005, 4103), (1006, 7)] := by
    decide
  refine ⟨by decide +kernel, ?_⟩
  rintro ⟨-, hsame | ⟨root, x, hroot, hx, hpath, -⟩⟩
  · rw [hafter, hbefore] at hsame
    simp at hsame
  · obtain rfl := Option.some.inj hroot
    have hfree : ∀ x ∈ sampleDatabase.objects .photos, x.metadata.path ≠ some ['e'] := by decide
    exact hfree x hx hpath

end VitaMTP
