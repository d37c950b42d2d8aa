import Mathlib.Data.List.Basic
import Mathlib.Data.List.Range
import Mathlib.Data.List.Perm.Subperm

/-! Linked lists in a heap whose cells are allocated before they are assigned. -/
namespace Cells

/-- What was never assigned is nothing. `next` is a pointer that may be null. -/
structure Cell (α : Type*) where
  value : Option α := none
  next : Option (Option ℕ) := none
  deriving DecidableEq, Repr

def Cell.fresh {α : Type*} : Cell α := {}

variable {α : Type*} {heap : List (Cell α)} {p : ℕ} {as bs : List α}

/-- From the address on there are exactly these values, and then a null pointer. -/
inductive ListAt (heap : List (Cell α)) : ℕ → List α → Prop
  | last {p : ℕ} {a : α} (hp : heap[p]? = some ⟨some a, some none⟩) : ListAt heap p [a]
  | link {p q : ℕ} {a : α} {as : List α} (hp : heap[p]? = some ⟨some a, some (some q)⟩)
      (hq : ListAt heap q as) : ListAt heap p (a :: as)

/-- From the address on there is a cell without a value. -/
inductive Dangling (heap : List (Cell α)) : ℕ → Prop
  | here {p : ℕ} {next : Option (Option ℕ)} (hp : heap[p]? = some ⟨none, next⟩) : Dangling heap p
  | link {p q : ℕ} {a : α} (hp : heap[p]? = some ⟨some a, some (some q)⟩)
      (hq : Dangling heap q) : Dangling heap p

theorem ListAt.unique (h : ListAt heap p as) (h' : ListAt heap p bs) : as = bs := by
  induction h generalizing bs with
  | last hp =>
    cases h' with
    | last hp' => simp_all
    | link hp' => simp_all
  | link hp _ ih =>
    cases h' with
    | last hp' => simp_all
    | link hp' hq' =>
      rw [hp] at hp'
      simp only [Option.some.injEq, Cell.mk.injEq] at hp'
      obtain ⟨rfl, rfl⟩ := hp'
      rw [ih hq']

theorem Dangling.not_listAt (h : Dangling heap p) : ¬ ListAt heap p as := by
  intro h'
  induction h generalizing as with
  | here hp => cases h' <;> simp_all
  | link hp _ ih =>
    cases h' with
    | last hp' => simp_all
    | link hp' hq' =>
      rw [hp] at hp'
      simp only [Option.some.injEq, Cell.mk.injEq] at hp'
      obtain ⟨-, rfl⟩ := hp'
      exact ih hq'

theorem ListAt.ne_nil (h : ListAt heap p as) : as ≠ [] := by cases h <;> simp

/-- The values from the address on, as long as there are at most `n`. It fails where something was
never assigned. -/
def read (heap : List (Cell α)) : ℕ → ℕ → Option (List α)
  | 0, _ => none
  | n + 1, p =>
    match heap[p]? with
    | some ⟨some value, some none⟩ => some [value]
    | some ⟨some value, some (some q)⟩ => (read heap n q).map (value :: ·)
    | _ => none

theorem ListAt.read (h : ListAt heap p as) {n : ℕ} (hn : as.length ≤ n) :
    read heap n p = some as := by
  induction h generalizing n with
  | last hp =>
    obtain ⟨n, rfl⟩ : ∃ k, n = k + 1 := ⟨n - 1, by simp at hn; omega⟩
    simp [Cells.read, hp]
  | link hp _ ih =>
    obtain ⟨n, rfl⟩ : ∃ k, n = k + 1 := ⟨n - 1, by simp at hn; omega⟩
    simp [Cells.read, hp, ih (show _ ≤ n by simp at hn; omega)]

theorem listAt_of_read {n : ℕ} (h : read heap n p = some as) : ListAt heap p as := by
  induction n generalizing p as with
  | zero => simp [read] at h
  | succ n ih =>
    rw [read] at h
    split at h
    · rename_i value hp
      obtain rfl := Option.some.inj h
      exact .last hp
    · rename_i value q hp
      obtain ⟨as, hq, rfl⟩ := Option.map_eq_some_iff.mp h
      exact .link hp (ih hq)
    · simp at h

/-- The cells of a list are different ones: behind each of them there are fewer. -/
theorem ListAt.addresses (h : ListAt heap p as) :
    ∃ ps : List ℕ, ps.length = as.length ∧ ps.Nodup ∧
      ∀ q ∈ ps, q < heap.length ∧ ∃ bs, ListAt heap q bs ∧ bs.length ≤ as.length := by
  induction h with
  | @last p a hp =>
    refine ⟨[p], rfl, by simp, fun q hq => ?_⟩
    obtain rfl := List.mem_singleton.mp hq
    exact ⟨(List.getElem?_eq_some_iff.mp hp).1, [a], .last hp, le_rfl⟩
  | @link p q a as hp hq ih =>
    obtain ⟨ps, hlength, hnodup, hps⟩ := ih
    refine ⟨p :: ps, by simp [hlength], List.nodup_cons.mpr ⟨fun hmem => ?_, hnodup⟩, ?_⟩
    · obtain ⟨-, bs, hbs, hle⟩ := hps p hmem
      obtain rfl := hbs.unique (.link hp hq)
      rw [List.length_cons] at hle
      omega
    · intro r hr
      rcases List.mem_cons.mp hr with rfl | hr
      · exact ⟨(List.getElem?_eq_some_iff.mp hp).1, _, .link hp hq, le_rfl⟩
      · obtain ⟨hlt, bs, hbs, hle⟩ := hps r hr
        exact ⟨hlt, bs, hbs, hle.trans (by simp)⟩

theorem ListAt.length_le (h : ListAt heap p as) : as.length ≤ heap.length := by
  obtain ⟨ps, hlength, hnodup, hps⟩ := h.addresses
  have hsub : ps ⊆ List.range heap.length := fun q hq => List.mem_range.mpr (hps q hq).1
  have := (hnodup.subperm hsub).length_le
  rwa [hlength, List.length_range] at this

theorem read_eq_some : read heap heap.length p = some as ↔ ListAt heap p as :=
  ⟨listAt_of_read, fun h => h.read h.length_le⟩

/-- From the address on there are exactly these cells, each with its own address. -/
inductive NodesAt (heap : List (Cell α)) : ℕ → List (ℕ × α) → Prop
  | last {p : ℕ} {a : α} (hp : heap[p]? = some ⟨some a, some none⟩) : NodesAt heap p [(p, a)]
  | link {p q : ℕ} {a : α} {nodes : List (ℕ × α)}
      (hp : heap[p]? = some ⟨some a, some (some q)⟩) (hq : NodesAt heap q nodes) :
      NodesAt heap p ((p, a) :: nodes)

namespace NodesAt

variable {nodes : List (ℕ × α)}

theorem listAt (h : NodesAt heap p nodes) : ListAt heap p (nodes.map Prod.snd) := by
  induction h with
  | last hp => exact .last hp
  | link hp _ ih => exact .link hp ih

theorem of_listAt (h : ListAt heap p as) :
    ∃ nodes, NodesAt heap p nodes ∧ nodes.map Prod.snd = as := by
  induction h with
  | last hp => exact ⟨_, .last hp, rfl⟩
  | link hp _ ih =>
    obtain ⟨nodes, hnodes, rfl⟩ := ih
    exact ⟨_, .link hp hnodes, rfl⟩

theorem length_le (h : NodesAt heap p nodes) : nodes.length ≤ heap.length := by
  rw [← List.length_map Prod.snd]
  exact h.listAt.length_le

theorem head (h : NodesAt heap p nodes) : ∃ a rest, nodes = (p, a) :: rest := by
  cases h with
  | last _ => exact ⟨_, _, rfl⟩
  | link _ _ => exact ⟨_, _, rfl⟩

theorem behind (h : NodesAt heap p nodes) :
    ∀ node ∈ nodes, ∃ as, ListAt heap node.1 as ∧ as.length ≤ nodes.length := by
  induction h with
  | @last p a hp =>
    intro node hnode
    rw [List.mem_singleton.mp hnode]
    exact ⟨[a], .last hp, le_rfl⟩
  | @link p q a nodes hp hq ih =>
    intro node hnode
    rcases List.mem_cons.mp hnode with rfl | hnode
    · exact ⟨_, .link hp hq.listAt, by simp⟩
    · obtain ⟨as, has, hle⟩ := ih node hnode
      exact ⟨as, has, hle.trans (by simp)⟩

theorem nodup (h : NodesAt heap p nodes) : (nodes.map Prod.fst).Nodup := by
  induction h with
  | last _ => simp
  | @link p q a nodes hp hq ih =>
    rw [List.map_cons, List.nodup_cons]
    refine ⟨fun hmem => ?_, ih⟩
    obtain ⟨node, hnode, rfl⟩ := List.mem_map.mp hmem
    obtain ⟨as, has, hle⟩ := hq.behind node hnode
    obtain rfl := has.unique (.link hp hq.listAt)
    rw [List.length_cons, List.length_map] at hle
    omega

end NodesAt

end Cells
