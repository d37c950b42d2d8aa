import VitaMTP.Events.Atomic
import VitaMTP.Events.Browse
import VitaMTP.Events.Receive
import VitaMTP.Events.Send
import VitaMTP.Library.Runs

/-! The handlers of events beside the thread that refreshes the database: each uses the database
that is there, as long as events come while there is one, no refresh starts before a handler has
returned, and the directories of a received tree can be made. -/
namespace VitaMTP
open Runs

/-- What a handler still has to do. `locked` is what stands between `lockDatabase` and
`unlockDatabase`: it may use a pointer that was kept from the database with the number `kept`,
`freed` tells whether it reads an object that it has freed itself, and `next` is what follows, given
the number of the database and what was there. Between two of these steps lie the transactions with
the device. -/
inductive Handler (σ : Type)
  | returned
  /-- `if (g_database == NULL)` with the refusal `Not_Ready` -/
  | check (go : Handler σ)
  | locked (kept : Option ℕ) (run : Host σ → Option (Host σ)) (freed : Host σ → Bool)
      (next : ℕ → Host σ → Handler σ)
  /-- an object that is read after `unlockDatabase`, and nothing else -/
  | unlocked (kept : ℕ)

/-- The events whose handlers use the database, with what the device sends for them. -/
inductive VitaEvent
  | sendNumOfObject (event : Event) (sent : Bool)
  | sendObjectMetadata (fuel : ℕ) (browse : Option (BitVec 32)) (sent : Bool)
  | sendObject (event : Event) (answers : ℕ → Option SendAnswer)
  | sendObjectStatus (status : Option (CString × BitVec 32))
  | sendObjectThumb (event : Event)
  | deleteObject (event : Event)
  | sendPartOfObject (ohfi : Option (BitVec 32))
  | operateObject (operate : Option OperateObject)
  | getPartOfObject (part : Option PartOfObject)
  | sendStorageSize (event : Event)
  | checkExistance (name : Option CString)
  | getTreatObject (treat : Option (BitVec 32 × DeviceObject))
  | sendCopyConfirmationInfo (ohfis : Option (List (BitVec 32)))
  | sendObjectMetadataItems (ohfi : Option (BitVec 32))
  | other

section directories

variable {σ : Type} (posix : Posix σ)

mutual

/-- `vitaGetAllObjects` cannot make a directory of the tree. It takes the object of the directory
out of the database then, and logs its path after that. -/
def directoryFails (c : Category) (parent : ℤ) : DeviceObject → Host σ → Bool
  | .unavailable, _ => false
  | .file _ _ _ _, _ => false
  | .folder name handle children, s => Option.getD (do
      let parent ← s.db.get? c parent
      let (s, object) ← addReceived posix s c parent name handle DataType.Folder
      if object.isFile then some false
      else
        let (created, fs) := createNewDirectory posix s.fs object.path
        some (!created || childDirectoryFails c object.ohfi children { s with fs := fs })) false

/-- The loop ends at the first child that is not received. -/
def childDirectoryFails (c : Category) (object : ℤ) : List DeviceObject → Host σ → Bool
  | [], _ => false
  | child :: children, s =>
    directoryFails c object child s ||
      match vitaGetAllObjects posix c object child s with
      | some (.OK, s) => childDirectoryFails c object children s
      | _ => false

end

/-- Every directory that an event asks for can be made. -/
def VitaEvent.makesDirectories (s : Host σ) : VitaEvent → Bool
  | .getTreatObject (some (ohfiParent, object)) =>
    match ohfiToObject s.db ohfiParent.toInt with
    | none => true
    | some (c, parent) => !directoryFails posix c parent.ohfi object s
  | _ => true

end directories

namespace Handler

variable {σ : Type} (posix : Posix σ)

/-- A handler with one section. -/
def once (run : Host σ → Option (Host σ)) : Handler σ :=
  .locked none run (fun _ => false) fun _ _ => .returned

/-- A handler that only reads in its section. -/
def reads : Handler σ := once some

/-- `metadata->next_metadata = NULL` for the object that was found. -/
def unlink (s : Host σ) : Option ObjectPtr → Host σ
  | none => s
  | some (c, object) =>
    { s with db := s.db.modify c object.ohfi fun o => { o with metadata := o.metadata.unlinked } }

/-- `VitaMTP_GetObject` comes before the second section; nothing follows if it fails. -/
def receive (k : ℕ) (c : Category) (parent : CmaObject) : DeviceObject → Handler σ
  | .unavailable => .returned
  | object => .locked (some k)
      (fun s => (vitaGetAllObjects posix c parent.ohfi object s).map Prod.snd)
      (directoryFails posix c parent.ohfi object) fun _ _ => .returned

/-- The sections of the handlers. A transaction that fails in front of the first leaves none. -/
def ofEvent : VitaEvent → Handler σ
  | .sendNumOfObject event sent => .check (once fun s =>
      (vitaEventSendNumOfObject (some s.db) event sent).1.map fun db => { s with db := db })
  | .sendObjectMetadata _ none _ => .returned
  | .sendObjectMetadata fuel browse sent => once fun s =>
      (vitaEventSendObjectMetadata fuel s.db browse sent).map fun r => { s with db := r.1 }
  | .sendObject event answers =>
    .locked none (fun s => some (vitaEventSendObject posix s event answers).1) (fun _ => false)
      fun k s =>
        -- the path of a file that cannot be read is logged behind the section
        if .reportResult .Not_Exist_Object ∈ (vitaEventSendObject posix s event answers).2 then
          .unlocked k
        else .returned
  | .sendObjectStatus none => .returned
  | .sendObjectStatus (some (title, ohfiRoot)) => once fun s =>
      some (unlink s (pathToObject s.db title ohfiRoot.toInt))
  | .sendObjectThumb _ => reads
  | .deleteObject event => once fun s =>
      (vitaEventDeleteObject posix s event).toOption.map Prod.fst
  | .sendPartOfObject none => .returned
  | .sendPartOfObject (some _) => reads
  | .operateObject none => .returned
  | .operateObject operate => once fun s =>
      (vitaEventOperateObject posix s operate).map Prod.fst
  | .getPartOfObject none => .returned
  | .getPartOfObject part => once fun s => (vitaEventGetPartOfObject posix s part).map Prod.fst
  | .sendStorageSize event => once fun s =>
      match ohfiToObject s.db event.param2.toInt with
      | none => some s
      | some (_, object) =>
        if posix.access s.fs.state object.path then some s
        else some { s with fs := (createNewDirectory posix s.fs object.path).2 }
  | .checkExistance none => .returned
  | .checkExistance (some _) => reads
  | .getTreatObject none => .returned
  | .getTreatObject (some (ohfiParent, object)) => .locked none some (fun _ => false) fun k s =>
      match ohfiToObject s.db ohfiParent.toInt with
      | none => .returned
      | some (c, parent) => receive posix k c parent object
  | .sendCopyConfirmationInfo none => .returned
  | .sendCopyConfirmationInfo (some _) => reads
  | .sendObjectMetadataItems none => .returned
  | .sendObjectMetadataItems (some ohfi) => once fun s =>
      some (unlink s (ohfiToObject s.db ohfi.toInt))
  | .other => .returned

/-- Nothing of the database is used before it was checked that there is one. -/
def Checks : Handler σ → Prop
  | .locked _ _ _ _ => False
  | .unlocked _ => False
  | _ => True

instance (p : Handler σ) : Decidable p.Checks := by
  cases p <;> unfold Checks <;> infer_instance

/-- On this database no pointer of another one and no freed object is used; what follows a check
needs no pointer from before it. -/
def Sound : Handler σ → ℕ → Host σ → Prop
  | .returned, _, _ => True
  | .check go, _, _ => ∀ k s, go.Sound k s
  | .locked kept run freed next, k, s => (∀ j ∈ kept, j = k) ∧ freed s = false ∧
      ∀ s', run s = some s' → (next k s).Sound k s'
  | .unlocked kept, k, _ => kept = k

theorem once_sound (run : Host σ → Option (Host σ)) (k : ℕ) (s : Host σ) : (once run).Sound k s :=
  ⟨by simp, rfl, fun _ _ => trivial⟩

theorem receive_sound {c : Category} {parent : CmaObject} {object : DeviceObject} {s : Host σ}
    (h : directoryFails posix c parent.ohfi object s = false) (k : ℕ) :
    (receive posix k c parent object).Sound k s := by
  cases object with
  | unavailable => exact trivial
  | file name handle size data => exact ⟨by simp, h, fun _ _ => trivial⟩
  | folder name handle children => exact ⟨by simp, h, fun _ _ => trivial⟩

theorem ofEvent_sound {e : VitaEvent} {s : Host σ} (h : e.makesDirectories posix s = true)
    (k : ℕ) : (ofEvent posix e).Sound k s := by
  cases e with
  | sendNumOfObject event sent => exact once_sound _
  | sendObjectMetadata fuel browse sent =>
    cases browse with
    | none => exact trivial
    | some browse => exact once_sound _ k s
  | sendObject event answers =>
    refine ⟨by simp, rfl, fun s' _ => ?_⟩
    dsimp only
    split
    · rfl
    · exact trivial
  | sendObjectStatus status =>
    cases status with
    | none => exact trivial
    | some status => exact once_sound _ k s
  | sendObjectThumb event => exact once_sound _ k s
  | deleteObject event => exact once_sound _ k s
  | sendPartOfObject ohfi =>
    cases ohfi with
    | none => exact trivial
    | some ohfi => exact once_sound _ k s
  | operateObject operate =>
    cases operate with
    | none => exact trivial
    | some operate => exact once_sound _ k s
  | getPartOfObject part =>
    cases part with
    | none => exact trivial
    | some part => exact once_sound _ k s
  | sendStorageSize event => exact once_sound _ k s
  | checkExistance name =>
    cases name with
    | none => exact trivial
    | some name => exact once_sound _ k s
  | getTreatObject treat =>
    cases treat with
    | none => exact trivial
    | some treat =>
      refine ⟨by simp, rfl, fun s' hs => ?_⟩
      obtain rfl := Option.some.inj hs
      obtain ⟨ohfiParent, object⟩ := treat
      rw [VitaEvent.makesDirectories] at h
      dsimp only
      cases hfound : ohfiToObject s.db ohfiParent.toInt with
      | none => exact trivial
      | some parent =>
        rw [hfound, Bool.not_eq_true'] at h
        exact receive_sound posix h k
  | sendCopyConfirmationInfo ohfis =>
    cases ohfis with
    | none => exact trivial
    | some ohfis => exact once_sound _ k s
  | sendObjectMetadataItems ohfi =>
    cases ohfi with
    | none => exact trivial
    | some ohfi => exact once_sound _ k s
  | other => exact trivial

theorem Checks.sound {p : Handler σ} (hchecks : p.Checks) {k : ℕ} {s : Host σ}
    (h : p.Sound k s) (j : ℕ) (s' : Host σ) : p.Sound j s' := by
  cases p with
  | returned => exact trivial
  | check go => exact h
  | locked kept run freed next => exact False.elim hchecks
  | unlocked kept => exact False.elim hchecks

theorem Checks.makesDirectories {e : VitaEvent} (h : (ofEvent posix e).Checks) (s : Host σ) :
    e.makesDirectories posix s = true := by
  cases e with
  | getTreatObject treat =>
    cases treat with
    | none => rfl
    | some treat => exact False.elim h
  | _ => rfl

end Handler

/-- What a step uses: the database that is installed, the one its pointer comes from, and maybe an
object that the step has freed. -/
structure Use where
  kept : Option ℕ
  installed : Option ℕ
  freed : Bool := false
  deriving DecidableEq, Repr

/-- There is a database, the pointer comes from it, and all that is used is still in it. -/
def Use.Legal (u : Use) : Prop :=
  (∃ k, u.installed = some k ∧ ∀ j ∈ u.kept, j = k) ∧ u.freed = false

/-- What the threads share. The databases are numbered as they are created; `refreshing` holds
between `destroyDatabase` and `createDatabase`. -/
structure Shared (σ : Type) where
  database : Option (ℕ × Database) := none
  fs : Disk σ
  created : ℕ := 0
  refreshing : Bool := false
  running : Option (Handler σ) := none

inductive SharedInput
  | event (e : VitaEvent)
  | handler
  | destroy
  | create (view : DirView) (n : ℕ) (uuid : CString)

namespace Shared

variable {σ : Type} (posix : Posix σ) (paths : CmaPaths)

/-- The use that the next step of the handler makes. -/
def use (s : Shared σ) : Option Use :=
  match s.running with
  | some (.locked kept _ freed _) => some
      { kept, installed := s.database.map Prod.fst
        freed := s.database.any fun (_, db) => freed { db := db, fs := s.fs } }
  | some (.unlocked kept) => some { kept := some kept, installed := s.database.map Prod.fst }
  | _ => none

/-- One step of the handler. It is undefined what it does without a database. -/
def handler (s : Shared σ) : Option (Shared σ) :=
  match s.running with
  | none => none
  | some .returned => some { s with running := none }
  | some (.check go) =>
    some { s with running := if s.database.isNone then none else some go }
  | some (.locked _ run _ next) => do
    let (k, db) ← s.database
    let s' ← run { db := db, fs := s.fs }
    some { s with
      database := some (k, s'.db), fs := s'.fs
      running := some (next k { db := db, fs := s.fs }) }
  | some (.unlocked _) => s.database.map fun _ => { s with running := some .returned }

def destroy (s : Shared σ) : Option (Shared σ) :=
  if s.refreshing then none else some { s with database := none, refreshing := true }

def create (s : Shared σ) (view : DirView) (n : ℕ) (uuid : CString) : Option (Shared σ) :=
  if s.refreshing then do
    let db ← createDatabase view n paths uuid
    some { s with database := some (s.created, db), created := s.created + 1, refreshing := false }
  else none

/-- The next event is read when the handler of the last one has returned. -/
def step (s : Shared σ) : SharedInput → Option (Shared σ)
  | .event e =>
    if s.running.isNone then some { s with running := some (Handler.ofEvent posix e) } else none
  | .handler => s.handler
  | .destroy => s.destroy
  | .create view n uuid => s.create paths view n uuid

/-- An event comes while there is a database, and asks for no directory that cannot be made, or its
handler checks first; a refresh starts while no handler is on its way to use the database, but one
that checks first. -/
def Undisturbed (s : Shared σ) : SharedInput → Prop
  | .event e =>
    match s.database with
    | none => (Handler.ofEvent posix e).Checks
    | some (_, db) => e.makesDirectories posix { db := db, fs := s.fs } = true
  | .destroy => ∀ p ∈ s.running, p.Checks
  | _ => True

instance (s : Shared σ) (input : SharedInput) : Decidable (s.Undisturbed posix input) := by
  cases input with
  | event e => cases hdb : s.database <;> simp only [Undisturbed, hdb] <;> infer_instance
  | handler => exact isTrue trivial
  | destroy => exact inferInstanceAs (Decidable (∀ p ∈ s.running, p.Checks))
  | create view n uuid => exact isTrue trivial

/-- The invariant of such a run. -/
structure Guarded (s : Shared σ) : Prop where
  absent : s.refreshing = true → s.database = none
  checks : ∀ p ∈ s.running, s.database = none → p.Checks
  sound : ∀ p ∈ s.running, ∀ k host,
    s.database = some (k, host.db) ∧ s.fs = host.fs ∨ p.Checks → p.Sound k host

variable {posix paths} {s s' : Shared σ}

theorem Guarded.legal (h : s.Guarded) {u : Use} (hu : u ∈ s.use) : u.Legal := by
  unfold use at hu
  split at hu
  · rename_i kept run freed next hrunning
    obtain rfl := Option.some.inj hu
    have hdb : s.database ≠ none := h.checks _ hrunning
    obtain ⟨⟨k, db⟩, hk⟩ := Option.ne_none_iff_exists'.mp hdb
    obtain ⟨hkept, hfreed, -⟩ := h.sound _ hrunning k { db := db, fs := s.fs } (Or.inl ⟨hk, rfl⟩)
    exact ⟨⟨k, by simp [hk], hkept⟩, by simp [hk, hfreed]⟩
  · rename_i kept hrunning
    obtain rfl := Option.some.inj hu
    have hdb : s.database ≠ none := h.checks _ hrunning
    obtain ⟨⟨k, db⟩, hk⟩ := Option.ne_none_iff_exists'.mp hdb
    have hkept : kept = k := h.sound _ hrunning k { db := db, fs := s.fs } (Or.inl ⟨hk, rfl⟩)
    exact ⟨⟨k, by simp [hk], by simp [hkept]⟩, rfl⟩
  · simp at hu

theorem Guarded.event (h : s.Guarded) {e : VitaEvent}
    (hallowed : s.Undisturbed posix (.event e)) :
    Guarded { s with running := some (Handler.ofEvent posix e) } := by
  refine ⟨h.absent, fun p hp hnone => ?_, fun p hp k host hhost => ?_⟩
  · obtain rfl := Option.some.inj hp
    have hnone' : s.database = none := hnone
    simpa only [Undisturbed, hnone'] using hallowed
  · obtain rfl := Option.some.inj hp
    refine Handler.ofEvent_sound posix ?_ k
    rcases hhost with ⟨hdb, hfs⟩ | hchecks
    · have hdb' : s.database = some (k, host.db) := hdb
      have hfs' : s.fs = host.fs := hfs
      simpa only [Undisturbed, hdb', hfs'] using hallowed
    · exact hchecks.makesDirectories posix host

theorem Guarded.handler (h : s.Guarded) (hs : s.handler = some s') : s'.Guarded := by
  unfold Shared.handler at hs
  split at hs
  · simp at hs
  · obtain rfl := Option.some.inj hs
    exact ⟨h.absent, by simp, by simp⟩
  · rename_i go hrunning
    obtain rfl := Option.some.inj hs
    -- the check settles that there is a database, and the handler has no pointer yet
    have hgo (k : ℕ) (host : Host σ) : go.Sound k host :=
      h.sound (.check go) hrunning k host (Or.inr trivial) k host
    refine ⟨h.absent, fun p hp hnone => ?_, fun p hp k host _ => ?_⟩
    · have hnone' : s.database = none := hnone
      simp [hnone'] at hp
    · dsimp only at hp
      split at hp
      · simp at hp
      · obtain rfl := Option.some.inj hp
        exact hgo k host
  · rename_i kept run freed next hrunning
    obtain ⟨⟨k, db⟩, hdb, hs⟩ := Option.bind_eq_some_iff.mp hs
    obtain ⟨host, hrun, hs⟩ := Option.bind_eq_some_iff.mp hs
    obtain rfl := Option.some.inj hs
    have hnext : (next k { db := db, fs := s.fs }).Sound k host :=
      (h.sound _ hrunning k { db := db, fs := s.fs } (Or.inl ⟨hdb, rfl⟩)).2.2 host hrun
    refine ⟨fun hrefreshing => ?_, fun p hp hnone => by simp at hnone, fun p hp j host' hj => ?_⟩
    · simp [h.absent hrefreshing] at hdb
    · obtain rfl := Option.some.inj hp
      rcases hj with ⟨hj, hfs⟩ | hchecks
      · obtain ⟨rfl, hdb'⟩ := Prod.mk.inj (Option.some.inj hj)
        obtain ⟨db', fs'⟩ := host'
        cases hdb'
        cases hfs
        exact hnext
      · exact hchecks.sound hnext j host'
  · obtain ⟨db, hdb, rfl⟩ := Option.map_eq_some_iff.mp hs
    refine ⟨h.absent, fun p hp _ => ?_, fun p hp k host _ => ?_⟩
    · obtain rfl := Option.some.inj hp
      exact trivial
    · obtain rfl := Option.some.inj hp
      exact trivial

theorem Guarded.destroy (h : s.Guarded) (hallowed : s.Undisturbed posix .destroy)
    (hs : s.destroy = some s') : s'.Guarded := by
  unfold Shared.destroy at hs
  split at hs
  · simp at hs
  · obtain rfl := Option.some.inj hs
    refine ⟨fun _ => rfl, fun p hp _ => hallowed p hp, fun p hp k host _ => ?_⟩
    exact h.sound p hp k host (Or.inr (hallowed p hp))

theorem Guarded.create (h : s.Guarded) {view : DirView} {n : ℕ} {uuid : CString}
    (hs : s.create paths view n uuid = some s') : s'.Guarded := by
  unfold Shared.create at hs
  split at hs
  · rename_i hrefreshing
    obtain ⟨db, hdb, hs⟩ := Option.bind_eq_some_iff.mp hs
    obtain rfl := Option.some.inj hs
    have hchecks : ∀ p ∈ s.running, p.Checks := fun p hp => h.checks p hp (h.absent hrefreshing)
    refine ⟨by simp, fun p hp _ => hchecks p hp, fun p hp k host _ => ?_⟩
    exact h.sound p hp k host (Or.inr (hchecks p hp))
  · simp at hs

theorem Guarded.step (h : s.Guarded) {input : SharedInput}
    (hallowed : s.Undisturbed posix input) (hs : s.step posix paths input = some s') :
    s'.Guarded := by
  cases input with
  | event e =>
    unfold Shared.step at hs
    dsimp only at hs
    split at hs
    · exact Option.some.inj hs ▸ h.event hallowed
    · simp at hs
  | handler => exact h.handler hs
  | destroy => exact h.destroy hallowed hs
  | create view n uuid => exact h.create hs

/-- Without a database a handler that has more to do than to check is in front of an illegal use. -/
theorem use_missing {p : Handler σ} (hp : s.running = some p) (hchecks : ¬ p.Checks)
    (hnone : s.database = none) : ∃ u ∈ s.use, ¬ u.Legal := by
  cases p with
  | returned => exact absurd trivial hchecks
  | check go => exact absurd trivial hchecks
  | locked kept run freed next =>
    refine ⟨{ kept, installed := none }, by simp [use, hp, hnone], ?_⟩
    rintro ⟨⟨k, hk, -⟩, -⟩
    simp at hk
  | unlocked kept =>
    refine ⟨{ kept := some kept, installed := none }, by simp [use, hp, hnone], ?_⟩
    rintro ⟨⟨k, hk, -⟩, -⟩
    simp at hk

/-- A tree with a directory that cannot be made is looked up, and then comes an illegal use. -/
theorem use_freed {k : ℕ} {db : Database} {e : VitaEvent}
    (hdb : s.database = some (k, db)) (hrunning : s.running = some (Handler.ofEvent posix e))
    (hfails : e.makesDirectories posix { db := db, fs := s.fs } = false) :
    ∃ s', s.handler = some s' ∧ ∃ u ∈ s'.use, ¬ u.Legal := by
  unfold VitaEvent.makesDirectories at hfails
  split at hfails
  · rename_i ohfiParent object
    split at hfails
    · simp at hfails
    · rename_i c parent hfound
      rw [Bool.not_eq_false'] at hfails
      obtain ⟨name, handle, children, rfl⟩ :
          ∃ name handle children, object = .folder name handle children := by
        cases object with
        | unavailable => simp [directoryFails] at hfails
        | file name handle size data => simp [directoryFails] at hfails
        | folder name handle children => exact ⟨name, handle, children, rfl⟩
      refine ⟨{ s with
        database := some (k, db)
        running := some (Handler.receive posix k c parent (.folder name handle children)) }, ?_,
        { kept := some k, installed := some k, freed := true }, ?_, fun hlegal => ?_⟩
      · simp [handler, hrunning, Handler.ofEvent, hdb, hfound]
      · simp [use, Handler.receive, hfails]
      · simpa using hlegal.2
  · simp at hfails

/-- The condition is no stronger than it has to be: what it excludes puts a handler in front of
an illegal use, at once or after one of its steps. -/
theorem disturbed {input : SharedInput} (hallowed : ¬ s.Undisturbed posix input)
    (hs : s.step posix paths input = some s') :
    ∃ s'', (s'' = s' ∨ s'.handler = some s'') ∧ ∃ u ∈ s''.use, ¬ u.Legal := by
  cases input with
  | event e =>
    unfold Shared.step at hs
    dsimp only at hs
    split at hs
    · obtain rfl := Option.some.inj hs
      rcases s.database.eq_none_or_eq_some with hdb | ⟨⟨k, db⟩, hdb⟩
      · simp only [Undisturbed, hdb] at hallowed
        exact ⟨_, Or.inl rfl, use_missing rfl hallowed hdb⟩
      · simp only [Undisturbed, hdb, Bool.not_eq_true] at hallowed
        obtain ⟨s'', hstep, huse⟩ := use_freed (s := { s with
          running := some (Handler.ofEvent posix e) }) hdb rfl hallowed
        exact ⟨s'', Or.inr hstep, huse⟩
    · simp at hs
  | handler => exact absurd trivial hallowed
  | destroy =>
    simp only [Undisturbed, not_forall] at hallowed
    obtain ⟨p, hp, hchecks⟩ := hallowed
    unfold Shared.step Shared.destroy at hs
    dsimp only at hs
    split at hs
    · simp at hs
    · obtain rfl := Option.some.inj hs
      exact ⟨_, Or.inl rfl, use_missing hp hchecks rfl⟩
  | create view n uuid => exact absurd trivial hallowed

end Shared

def sampleShared (posix : Posix Unit) (inputs : List SharedInput) : Shared Unit :=
  (inputs.foldlM (Shared.step posix samplePaths) { fs := { state := () } }).getD
    { fs := { state := () } }

def refreshOnce : List SharedInput := [.destroy, .create sampleView 3 ['0']]

/-- An object for the photo category, which has been looked up. -/
def treatInputs (object : DeviceObject) : List SharedInput :=
  refreshOnce ++ [.event (.getTreatObject (some (2, object))), .handler]

def sampleFolder : DeviceObject := .folder ['y'] 9 []

/-- An illegal use is reached. -/
def Misused (posix : Posix Unit) (u : Use) : Prop :=
  ∃ s : Shared Unit, Reached (Shared.step posix samplePaths) (fun _ _ => True)
    { fs := { state := () } } s ∧ s.use = some u ∧ ¬ ∀ u ∈ s.use, u.Legal

theorem misused {posix : Posix Unit} {u : Use} (inputs : List SharedInput)
    (hrun : inputs.foldlM (Shared.step posix samplePaths) { fs := { state := () } } =
      some (sampleShared posix inputs))
    (huse : (sampleShared posix inputs).use = some u) (hillegal : ¬ u.Legal) : Misused posix u :=
  ⟨_, Reached.start.run hrun, huse, fun h => hillegal (h u huse)⟩

end VitaMTP
