import VitaMTP.Database.Reachable

/-! The lock, the unlinked nodes and the error exit of `removeFromDatabase`. -/
namespace VitaMTP
open ParentFirst

inductive RemoveEvent
  | lock
  | unlock
  /-- "Invalid database entry" -/
  | invalid (ohfi : ℤ)
  /-- The node is unlinked and goes to `freeCMAObject`. -/
  | free (object : CmaObject)
  deriving DecidableEq, Repr

/- `removeNodes` and `removeLoop` with what they do on the way. -/
mutual

def removeNodesLogged : ℕ → ℤ → List CmaObject → Option (List CmaObject × List RemoveEvent)
  | 0, _, _ => none
  | n + 1, ohfi, start =>
    (removeLoopLogged n ohfi [] none start).map fun r => (r.1, .lock :: r.2)

def removeLoopLogged : ℕ → ℤ → List CmaObject → Option ℕ → List CmaObject →
    Option (List CmaObject × List RemoveEvent)
  | 0, _, _, _, _ => none
  | _ + 1, _, seen, toFree, [] =>
    match toFree with
    | none | some 0 => none
    | some k => some (seen.reverse.eraseIdx k, .unlock :: (seen.reverse[k]?).toList.map .free)
  | n + 1, ohfi, seen, toFree, object :: rest =>
    let toFree := if object.ohfi = ohfi then some seen.length else toFree
    if object.ohfiParent = ohfi then
      match seen with
      | [] => some (object :: rest, [.invalid ohfi])
      | prev :: before =>
        match removeNodesLogged n object.ohfi (prev :: object :: rest) with
        | some (prev :: rest, called) =>
          (removeLoopLogged n ohfi (prev :: before) toFree rest).map fun r => (r.1, called ++ r.2)
        | _ => none
    else removeLoopLogged n ohfi (object :: seen) toFree rest

end

/-- The depth of the lock after an event. -/
def lockAfter (depth : ℕ) : RemoveEvent → ℕ
  | .lock => depth + 1
  | .unlock => depth - 1
  | _ => depth

@[simp] def RemoveEvent.freed? : RemoveEvent → Option CmaObject
  | free object => some object
  | _ => none

@[simp] def RemoveEvent.isInvalid : RemoveEvent → Bool
  | invalid _ => true
  | _ => false

def freedNodes (events : List RemoveEvent) : List CmaObject := events.filterMap RemoveEvent.freed?

@[simp] theorem freedNodes_nil : freedNodes [] = [] := rfl

@[simp] theorem freedNodes_cons (event : RemoveEvent) (events : List RemoveEvent) :
    freedNodes (event :: events) = event.freed?.toList ++ freedNodes events := by
  cases event <;> rfl

@[simp] theorem freedNodes_append (events events' : List RemoveEvent) :
    freedNodes (events ++ events') = freedNodes events ++ freedNodes events' :=
  List.filterMap_append

theorem removeLogged_forget (n : ℕ) :
    (∀ ohfi start lock, removeNodes n ohfi start lock =
      (removeNodesLogged n ohfi start).map fun r => (r.1, r.2.foldl lockAfter lock)) ∧
    (∀ ohfi seen toFree rest lock, removeLoop n ohfi seen toFree rest lock =
      (removeLoopLogged n ohfi seen toFree rest).map
        fun r => (r.1, r.2.foldl lockAfter lock)) := by
  induction n with
  | zero =>
    constructor
    · intro ohfi start lock
      simp [removeNodes, removeNodesLogged]
    · intro ohfi seen toFree rest lock
      simp [removeLoop, removeLoopLogged]
  | succ n ih =>
    obtain ⟨hnodes, hloop⟩ := ih
    constructor
    · intro ohfi start lock
      rw [removeNodes, removeNodesLogged, hloop, Option.map_map]
      rfl
    · intro ohfi seen toFree rest lock
      cases rest with
      | nil =>
        cases toFree with
        | none => simp [removeLoop, removeLoopLogged]
        | some k =>
          cases k with
          | zero => simp [removeLoop, removeLoopLogged]
          | succ k =>
            cases hk : seen.reverse[k + 1]? <;>
              simp [removeLoop, removeLoopLogged, lockAfter, hk]
      | cons object rest =>
        by_cases hp : object.ohfiParent = ohfi
        · cases seen with
          | nil => simp [removeLoop, removeLoopLogged, hp, lockAfter]
          | cons prev before =>
            simp only [removeLoop, removeLoopLogged, hp, if_true, hnodes]
            cases hcall : removeNodesLogged n object.ohfi (prev :: object :: rest) with
            | none => rfl
            | some r =>
              obtain ⟨nodes, called⟩ := r
              cases nodes with
              | nil => rfl
              | cons prev' rest' =>
                simp only [Option.map_some, hloop, Option.map_map]
                refine congrArg (Option.map · _) (funext fun r => ?_)
                simp [List.foldl_append]
        · simp only [removeLoop, removeLoopLogged, hp, if_false, hloop]

/-- Every node is freed or left, and a call that took the lock gave it back or hit the error
exit. `held` counts the calls that are under way. -/
structure Accounted (nodes kept : List CmaObject) (events : List RemoveEvent) (held : ℕ) : Prop
    where
  perm : (kept ++ freedNodes events).Perm nodes
  locks : events.count .lock + held = events.count .unlock + events.countP RemoveEvent.isInvalid

private theorem eraseIdx_perm (nodes : List CmaObject) (k : ℕ) :
    (nodes.eraseIdx k ++ freedNodes ((nodes[k]?).toList.map .free)).Perm nodes := by
  cases hk : nodes[k]? with
  | none =>
    rw [List.getElem?_eq_none_iff] at hk
    simp [List.eraseIdx_of_length_le hk]
  | some object =>
    obtain ⟨hlt, rfl⟩ := List.getElem?_eq_some_iff.mp hk
    simpa using List.perm_append_comm.trans (List.getElem_cons_eraseIdx_perm hlt)

/-- A recursive call starts at the last node that was passed, and the loop goes on with what the
call leaves. -/
private theorem perm_call {prev prev' object : CmaObject}
    {before rest rest' kept called others : List CmaObject}
    (hchild : (prev' :: rest' ++ called).Perm (prev :: object :: rest))
    (hothers : (kept ++ others).Perm ((prev' :: before).reverse ++ rest')) :
    (kept ++ called ++ others).Perm ((prev :: before).reverse ++ object :: rest) := by
  calc List.Perm (kept ++ called ++ others) (kept ++ others ++ called) := by
        rw [List.append_assoc, List.append_assoc]
        exact List.perm_append_comm.append_left kept
    List.Perm _ ((prev' :: before).reverse ++ rest' ++ called) := hothers.append_right called
    List.Perm _ (before.reverse ++ (prev' :: rest' ++ called)) := by simp
    List.Perm _ (before.reverse ++ (prev :: object :: rest)) := hchild.append_left _
    List.Perm _ ((prev :: before).reverse ++ object :: rest) := by simp

theorem removeLogged_accounted (n : ℕ) :
    (∀ ohfi start kept events, removeNodesLogged n ohfi start = some (kept, events) →
      Accounted start kept events 0) ∧
    (∀ ohfi seen toFree rest kept events,
      removeLoopLogged n ohfi seen toFree rest = some (kept, events) →
      Accounted (seen.reverse ++ rest) kept events 1) := by
  induction n with
  | zero =>
    constructor
    · intro ohfi start kept events h
      simp [removeNodesLogged] at h
    · intro ohfi seen toFree rest kept events h
      simp [removeLoopLogged] at h
  | succ n ih =>
    obtain ⟨hnodes, hloop⟩ := ih
    constructor
    · intro ohfi start kept events h
      rw [removeNodesLogged, Option.map_eq_some_iff] at h
      obtain ⟨⟨nodes, inner⟩, hrun, heq⟩ := h
      obtain ⟨rfl, rfl⟩ := Prod.mk.inj heq
      obtain ⟨hperm, hlocks⟩ := hloop _ _ _ _ _ _ hrun
      constructor
      · simpa using hperm
      · simpa using hlocks
    · intro ohfi seen toFree rest kept events h
      cases rest with
      | nil =>
        match toFree with
        | none => simp [removeLoopLogged] at h
        | some 0 => simp [removeLoopLogged] at h
        | some (k + 1) =>
          simp only [removeLoopLogged, Option.some.injEq, Prod.mk.injEq] at h
          obtain ⟨rfl, rfl⟩ := h
          constructor
          · rw [List.append_nil]
            exact eraseIdx_perm seen.reverse (k + 1)
          · cases seen.reverse[k + 1]? <;> simp
      | cons object rest =>
        by_cases hp : object.ohfiParent = ohfi
        · cases seen with
          | nil =>
            simp only [removeLoopLogged, hp, if_true, Option.some.injEq, Prod.mk.injEq] at h
            obtain ⟨rfl, rfl⟩ := h
            constructor
            · simp
            · simp
          | cons prev before =>
            simp only [removeLoopLogged, hp, if_true] at h
            cases hcall : removeNodesLogged n object.ohfi (prev :: object :: rest) with
            | none => simp [hcall] at h
            | some r =>
              obtain ⟨nodes, called⟩ := r
              cases nodes with
              | nil => simp [hcall] at h
              | cons prev' rest' =>
                simp only [hcall, Option.map_eq_some_iff] at h
                obtain ⟨⟨nodes, others⟩, hrun, heq⟩ := h
                obtain ⟨rfl, rfl⟩ := Prod.mk.inj heq
                have hchild := hnodes _ _ _ _ hcall
                have hothers := hloop _ _ _ _ _ _ hrun
                constructor
                · rw [freedNodes_append, ← List.append_assoc]
                  exact perm_call hchild.perm hothers.perm
                · have h₁ := hchild.locks
                  have h₂ := hothers.locks
                  simp only [List.count_append, List.countP_append]
                  omega
        · simp only [removeLoopLogged, hp, if_false] at h
          have hrest := hloop _ _ _ _ _ _ h
          constructor
          · simpa using hrest.perm
          · exact hrest.locks

theorem lockAfter_add {events : List RemoveEvent} {depth : ℕ}
    (h : events.count .unlock ≤ depth) :
    events.foldl lockAfter depth + events.count .unlock = depth + events.count .lock := by
  induction events generalizing depth with
  | nil => simp
  | cons event events ih =>
    cases event with
    | lock =>
      have := @ih (depth + 1) (by simp at h; omega)
      simp [lockAfter]
      omega
    | unlock =>
      rw [List.count_cons_self] at h
      have := @ih (depth - 1) (by omega)
      simp [lockAfter]
      omega
    | invalid ohfi => simpa [lockAfter] using ih (by simpa using h)
    | free object => simpa [lockAfter] using ih (by simpa using h)

/-- A walk in an ordered list from any node in front of the object ends without an error, gives
the lock back as often as it takes it and frees what it does not leave. -/
theorem removeNodesLogged_ordered {start x : CmaObject} {l l' : List CmaObject}
    (ho : NodesOrdered (start :: l ++ x :: l')) :
    ∃ events, removeNodesLogged (walkFuel (start :: l ++ x :: l')) x.ohfi
        (start :: l ++ x :: l') =
          some (withoutNodes x.ohfi (start :: l ++ x :: l'), events) ∧
      (∀ event ∈ events, event.isInvalid = false) ∧
      events.count .lock = events.count .unlock ∧
      (withoutNodes x.ohfi (start :: l ++ x :: l') ++ freedNodes events).Perm
        (start :: l ++ x :: l') := by
  set nodes := start :: l ++ x :: l' with hnodes
  have hforget := (removeLogged_forget (walkFuel nodes)).1 x.ohfi nodes
  have hrun (lock : ℕ) := removeNodes_eq ho lock
  simp only [← hnodes, hforget] at hrun
  obtain ⟨⟨kept, events⟩, hlogged, heq⟩ := Option.map_eq_some_iff.mp (hrun 0)
  obtain ⟨rfl, -⟩ := Prod.mk.inj heq
  obtain ⟨hperm, hlocks⟩ := (removeLogged_accounted (walkFuel nodes)).1 _ _ _ _ hlogged
  have hdepth : events.foldl lockAfter (events.count .unlock) = events.count .unlock := by
    have := hrun (events.count .unlock)
    rw [hlogged, Option.map_some, Option.some.injEq, Prod.mk.injEq] at this
    exact this.2
  have hbalance := @lockAfter_add events _ le_rfl
  have hinvalid : events.countP RemoveEvent.isInvalid = 0 := by omega
  refine ⟨events, hlogged, ?_, by omega, hperm⟩
  simpa using List.countP_eq_zero.mp hinvalid

/-- Removing an object from any node in front of it unlinks the object and everything below it,
each once, and nothing else, and taking out what was just added brings the list back. -/
theorem removeFromDatabase_subtree {db : Database} {c : Category}
    (ho : NodesOrdered (db.lists c)) :
    (∀ before start between x after,
      db.lists c = before ++ start :: between ++ x :: after →
      ∃ kept events,
        removeNodesLogged (walkFuel (start :: between ++ x :: after)) x.ohfi
          (start :: between ++ x :: after) = some (kept, events) ∧
        (∀ event ∈ events, event.isInvalid = false) ∧
        events.count .lock = events.count .unlock ∧
        (freedNodes events).Nodup ∧
        (∀ o, o ∈ freedNodes events ↔ o ∈ db.lists c ∧ NodesBelow (db.lists c) x.ohfi o.ohfi) ∧
        before ++ kept = withoutNodes x.ohfi (db.lists c) ∧
        removeFromDatabase db x.ohfi (some (c, start)) =
          some (db.setList c (before ++ kept))) ∧
    (∀ root name size type, ∀ start ∈ db.lists c,
      NodesOrdered ((addToDatabase db c root name size type).1.lists c) →
      removeFromDatabase (addToDatabase db c root name size type).1
          (addToDatabase db c root name size type).2.ohfi (some (c, start)) =
        some { db with ohfiCount := db.ohfiCount + 1 }) := by
  constructor
  · intro before start between x after hl
    rw [hl] at ho
    have hnodes : NodesOrdered (start :: between ++ x :: after) := by
      rw [List.append_assoc] at ho
      exact ho.sublist (List.sublist_append_right before _)
    obtain ⟨events, hlogged, hinvalid, hbalance, hperm⟩ := removeNodesLogged_ordered hnodes
    have hfront := withoutNodes_front ho
    have hwhole : (withoutNodes x.ohfi (db.lists c) ++ freedNodes events).Perm (db.lists c) := by
      rw [hl, ← hfront, List.append_assoc, List.append_assoc]
      exact hperm.append_left before
    have hnodup : (withoutNodes x.ohfi (db.lists c) ++ freedNodes events).Nodup := by
      rw [hwhole.nodup_iff, hl]
      exact ho.nodup.of_map _
    obtain ⟨-, hfreed, hdisjoint⟩ := List.nodup_append'.mp hnodup
    refine ⟨_, events, hlogged, hinvalid, hbalance, hfreed, fun o => ?_, by rw [hl, hfront], ?_⟩
    · have hmem := hwhole.mem_iff (a := o)
      rw [List.mem_append, mem_without] at hmem
      constructor
      · intro hf
        have hol := hmem.mp (Or.inr hf)
        refine ⟨hol, ?_⟩
        by_contra hb
        exact hdisjoint (mem_without.mpr ⟨hol, hb⟩) hf
      · rintro ⟨hol, hb⟩
        exact (hmem.mpr hol).resolve_left fun hkept => hkept.2 hb
    · rw [removeFromDatabase_eq hl (hl ▸ ho), hl, hfront]
  · intro root name size type start hstart hadded
    set added := (addToDatabase db c root name size type).1 with hadd
    set x := (addToDatabase db c root name size type).2 with hx
    have hlist : added.lists c = db.lists c ++ [x] := by
      rw [hadd, hx]
      simp [addToDatabase]
    obtain ⟨before, between, hl⟩ := List.append_of_mem hstart
    rw [hlist] at hadded
    have hl' : added.lists c = before ++ start :: between ++ x :: [] := by
      rw [hlist, hl]
    rw [removeFromDatabase_eq hl' (hlist ▸ hadded), hlist, withoutNodes,
      without_block hadded trivial, hadd]
    simp [addToDatabase, Database.setList]

/-- The folder `d` goes with the photo in it, and another folder comes and goes. -/
theorem removeFromDatabase_subtree_sample :
    (∃ kept events,
      removeNodesLogged 16 1005 (sampleDatabase.lists .photos) = some (kept, events) ∧
      (∀ event ∈ events, event.isInvalid = false) ∧ (freedNodes events).Nodup ∧
      removeFromDatabase sampleDatabase 1005 (some (.photos, sampleObject 0)) =
        some (sampleDatabase.setList .photos kept)) ∧
    removeFromDatabase
        (addToDatabase sampleDatabase .photos (sampleObject 1) ['y'] 0 DataType.Folder).1
        (addToDatabase sampleDatabase .photos (sampleObject 1) ['y'] 0 DataType.Folder).2.ohfi
        (some (.photos, sampleObject 1)) =
      some { sampleDatabase with ohfiCount := sampleDatabase.ohfiCount + 1 } := by
  have ho : NodesOrdered (sampleDatabase.lists .photos) := ⟨by decide, by decide, by decide⟩
  have h := removeFromDatabase_subtree ho
  constructor
  · obtain ⟨kept, events, hlogged, hinvalid, -, hfreed, -, -, hremove⟩ :=
      h.1 [] (sampleObject 0) [] (sampleObject 1) [sampleObject 2] sample_photos
    exact ⟨kept, events, hlogged, hinvalid, hfreed, hremove⟩
  · exact h.2 (sampleObject 1) ['y'] 0 DataType.Folder (sampleObject 1) (by decide)
      ⟨by decide, by decide, by decide⟩

end VitaMTP
