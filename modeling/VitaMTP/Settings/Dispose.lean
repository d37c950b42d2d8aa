import Mathlib.Data.List.Count
import Mathlib.Data.List.Perm.Basic
import VitaMTP.Settings.Accounts

/-! How the settings of the device are disposed of: what is freed, and what is read. -/
namespace VitaMTP
open Cells

/-- The strings of `struct account`. -/
inductive AccountField
  | userName | signInId | accountId | countryCode | langCode | birthday | onlineUser | passwd
  deriving DecidableEq, Repr

def AccountField.all : List AccountField :=
  [userName, signInId, accountId, countryCode, langCode, birthday, onlineUser, passwd]

def Account.get (account : Account) : AccountField → Option CString
  | .userName => account.userName
  | .signInId => account.signInId
  | .accountId => account.accountId
  | .countryCode => account.countryCode
  | .langCode => account.langCode
  | .birthday => account.birthday
  | .onlineUser => account.onlineUser
  | .passwd => account.passwd

/-- What is allocated on its own. The settings begin with their first account, and are the block
at its address, 0. -/
inductive Allocation
  | account (address : ℕ)
  | string (address : ℕ) (field : AccountField)
  deriving DecidableEq, Repr

/-- A node is read, or a block is handed to `free`. -/
inductive Access
  | read (address : ℕ)
  | free (block : Allocation)
  deriving DecidableEq, Repr

def Access.freed : Access → Option Allocation
  | read _ => none
  | free block => some block

/-- `free(account->field)`. Nothing happens to a null pointer. -/
def freeField (p : ℕ) (account : Account) (field : AccountField) : List Access :=
  .read p :: if (account.get field).isSome then [.free (.string p field)] else []

/-- The strings that the loop frees, in its order. -/
def freedFields : List AccountField :=
  [.accountId, .birthday, .countryCode, .langCode, .onlineUser, .passwd, .signInId]

/-- `free(lastAccount)` -/
def freeLast : Option ℕ → List Access
  | none => []
  | some p => [.free (.account p)]

/-- The loop over the accounts, for at most `n` rounds. -/
def freeLoop (heap : List (Cell Account)) : ℕ → Option ℕ → Option ℕ → Option (List Access)
  | _, none, _ => some []
  | 0, some _, _ => none
  | n + 1, some p, lastAccount =>
    match heap[p]? with
    | some ⟨some account, some next⟩ =>
      (freeLoop heap n next (some p)).map fun rest =>
        freeLast lastAccount ++ freedFields.flatMap (freeField p account) ++ .read p :: rest
    | _ => none

/-- `VitaMTP_Data_Free_Settings` -/
def freeSettings (heap : List (Cell Account)) : Option (List Access) :=
  (freeLoop heap heap.length (some 0) none).map (· ++ [.free (.account 0)])

def freed (accesses : List Access) : List Allocation := accesses.filterMap Access.freed

/-- No node is read once it was freed. -/
def ReadsNoFreed (accesses : List Access) : Prop :=
  accesses.Pairwise fun e e' => ∀ p, e = .free (.account p) → e' ≠ .read p

def ownedStrings (node : ℕ × Account) : List Allocation :=
  (AccountField.all.filter fun field => (node.2.get field).isSome).map (.string node.1)

/-- Everything that belongs to the settings: their accounts and the strings of these. -/
def ownedBlocks (nodes : List (ℕ × Account)) : List Allocation :=
  (nodes.map fun node => .account node.1) ++ nodes.flatMap ownedStrings

/-- Everything that belongs to the settings is freed once, nothing else is, and nothing is read
later. -/
structure DisposesOf (nodes : List (ℕ × Account)) (accesses : List Access) : Prop where
  exact : (freed accesses).Perm (ownedBlocks nodes)
  reads : ReadsNoFreed accesses

/-- What the loop does from some nodes on. -/
def nodeAccesses : Option ℕ → List (ℕ × Account) → List Access
  | _, [] => []
  | lastAccount, (p, account) :: nodes =>
    freeLast lastAccount ++ freedFields.flatMap (freeField p account) ++
      .read p :: nodeAccesses (some p) nodes

theorem freeLoop_eq {heap : List (Cell Account)} {p : ℕ} {nodes : List (ℕ × Account)}
    (h : NodesAt heap p nodes) {n : ℕ} (hn : nodes.length ≤ n) (lastAccount : Option ℕ) :
    freeLoop heap n (some p) lastAccount = some (nodeAccesses lastAccount nodes) := by
  induction h generalizing n lastAccount with
  | last hp =>
    obtain ⟨n, rfl⟩ : ∃ k, n = k + 1 := ⟨n - 1, by simp at hn; omega⟩
    simp [freeLoop, nodeAccesses, hp]
  | link hp _ ih =>
    obtain ⟨n, rfl⟩ : ∃ k, n = k + 1 := ⟨n - 1, by simp at hn; omega⟩
    simp [freeLoop, nodeAccesses, hp, ih (show _ ≤ n by simp at hn; omega)]

theorem freeSettings_eq {heap : List (Cell Account)} {nodes : List (ℕ × Account)}
    (h : NodesAt heap 0 nodes) :
    freeSettings heap = some (nodeAccesses none nodes ++ [.free (.account 0)]) := by
  rw [freeSettings, freeLoop_eq h h.length_le]
  rfl

theorem nodesAt_of_freeLoop {heap : List (Cell Account)} {n p : ℕ} {lastAccount : Option ℕ}
    {accesses : List Access} (h : freeLoop heap n (some p) lastAccount = some accesses) :
    ∃ nodes, NodesAt heap p nodes := by
  induction n generalizing p lastAccount accesses with
  | zero => simp [freeLoop] at h
  | succ n ih =>
    rw [freeLoop] at h
    split at h
    · rename_i account next hp
      obtain ⟨rest, hrest, -⟩ := Option.map_eq_some_iff.mp h
      cases next with
      | none => exact ⟨_, .last hp⟩
      | some q =>
        obtain ⟨nodes, hnodes⟩ := ih hrest
        exact ⟨_, .link hp hnodes⟩
    · simp at h

@[simp] theorem freed_append (as bs : List Access) : freed (as ++ bs) = freed as ++ freed bs :=
  List.filterMap_append ..

@[simp] theorem freed_read (p : ℕ) (as : List Access) : freed (.read p :: as) = freed as := rfl

@[simp] theorem freed_free (block : Allocation) (as : List Access) :
    freed (.free block :: as) = block :: freed as := rfl

theorem freed_fields (p : ℕ) (account : Account) :
    freed (freedFields.flatMap (freeField p account)) =
      (freedFields.filter fun field => (account.get field).isSome).map (.string p) := by
  induction freedFields with
  | nil => rfl
  | cons field fields ih =>
    rw [List.flatMap_cons, freed_append, ih, List.filter_cons, freeField, freed_read]
    cases (account.get field).isSome with
    | true => rfl
    | false => rfl

theorem freed_nodeAccesses (p : ℕ) (account : Account) (nodes : List (ℕ × Account))
    (lastAccount : Option ℕ) :
    freed (nodeAccesses lastAccount ((p, account) :: nodes)) =
      freed (freeLast lastAccount) ++
        (freedFields.filter fun field => (account.get field).isSome).map (.string p) ++
        freed (nodeAccesses (some p) nodes) := by
  rw [nodeAccesses, freed_append, freed_append, freed_read, freed_fields]

def Allocation.account? : Allocation → Option ℕ
  | account p => some p
  | string _ _ => none

theorem accounts_strings (p : ℕ) (fields : List AccountField) :
    (fields.map (Allocation.string p)).filterMap Allocation.account? = [] := by
  rw [List.filterMap_map]
  exact List.filterMap_eq_nil_iff.mpr fun _ _ => rfl

theorem accounts_freed (lastAccount : Option ℕ) (nodes : List (ℕ × Account)) :
    (freed (nodeAccesses lastAccount nodes)).filterMap Allocation.account? =
      if nodes = [] then [] else (lastAccount.toList ++ nodes.map Prod.fst).dropLast := by
  induction nodes generalizing lastAccount with
  | nil => rfl
  | cons node nodes ih =>
    obtain ⟨p, account⟩ := node
    have hlast : (freed (freeLast lastAccount)).filterMap Allocation.account? =
        lastAccount.toList := by
      cases lastAccount with
      | none => rfl
      | some q => rfl
    rw [freed_nodeAccesses, List.filterMap_append, List.filterMap_append, accounts_strings, hlast,
      ih, if_neg (List.cons_ne_nil _ _), List.append_nil, List.map_cons]
    cases nodes with
    | nil => simp
    | cons next nodes =>
      rw [if_neg (List.cons_ne_nil _ _), List.dropLast_append_of_ne_nil (List.cons_ne_nil _ _)]
      rfl

theorem accounts_owned (nodes : List (ℕ × Account)) :
    (ownedBlocks nodes).filterMap Allocation.account? = nodes.map Prod.fst := by
  have hstrings : (nodes.flatMap ownedStrings).filterMap Allocation.account? = [] := by
    rw [List.filterMap_eq_nil_iff]
    intro block hblock
    obtain ⟨node, -, hmem⟩ := List.mem_flatMap.mp hblock
    obtain ⟨field, -, rfl⟩ := List.mem_map.mp hmem
    rfl
  rw [ownedBlocks, List.filterMap_append, hstrings, List.append_nil, List.filterMap_map]
  show nodes.filterMap (some ∘ Prod.fst) = _
  rw [List.filterMap_eq_map]

theorem accounts_freed_perm {heap : List (Cell Account)} {nodes : List (ℕ × Account)}
    (h : NodesAt heap 0 nodes)
    (hperm : (freed (nodeAccesses none nodes ++ [.free (.account 0)])).Perm (ownedBlocks nodes)) :
    nodes.length = 1 := by
  have haccounts := hperm.filterMap Allocation.account?
  obtain ⟨a, rest, rfl⟩ := h.head
  rw [freed_append, List.filterMap_append, accounts_freed, if_neg (List.cons_ne_nil _ _),
    accounts_owned] at haccounts
  have hlast := List.dropLast_append_getLast (l := ((0, a) :: rest).map Prod.fst) (by simp)
  conv_rhs at haccounts => rw [← hlast]
  have hsame := (List.perm_append_left_iff _).mp haccounts
  have hzero : 0 = (((0, a) :: rest).map Prod.fst).getLast (by simp) :=
    List.singleton_perm_singleton.mp hsame
  cases rest with
  | nil => rfl
  | cons next rest =>
    have hnodup := List.nodup_cons.mp h.nodup
    apply absurd _ hnodup.1
    rw [hzero]
    exact List.getLast_mem (by simp : (next :: rest).map Prod.fst ≠ [])

theorem freed_nodup_iff {heap : List (Cell Account)} {nodes : List (ℕ × Account)}
    (h : NodesAt heap 0 nodes) :
    (freed (nodeAccesses none nodes ++ [.free (.account 0)])).Nodup ↔ nodes.length = 1 := by
  obtain ⟨account, rest, rfl⟩ := h.head
  cases rest with
  | nil =>
    have hfields : ((freedFields.filter fun field => (account.get field).isSome).map
        (Allocation.string 0)).Nodup := by
      refine ((show freedFields.Nodup by decide).filter _).map ?_
      intro field field' he
      exact (Allocation.string.inj he).2
    rw [freed_append, freed_nodeAccesses]
    simp only [freeLast, nodeAccesses, freed, List.filterMap_nil, List.filterMap_cons,
      Access.freed, List.nil_append, List.append_nil, List.length_singleton, iff_true]
    refine List.nodup_append.mpr ⟨hfields, List.nodup_singleton _, fun block hblock block' h' => ?_⟩
    obtain ⟨field, -, rfl⟩ := List.mem_map.mp hblock
    obtain rfl := List.mem_singleton.mp h'
    simp
  | cons next rest =>
    refine iff_of_false (fun hnodup => ?_) (by simp)
    have haccounts := accounts_freed none ((0, account) :: next :: rest)
    have hzero : .account 0 ∈ freed (nodeAccesses none ((0, account) :: next :: rest)) := by
      have hmem : 0 ∈ (freed (nodeAccesses none ((0, account) :: next :: rest))).filterMap
          Allocation.account? := by
        rw [haccounts]
        simp
      obtain ⟨block, hblock, he⟩ := List.mem_filterMap.mp hmem
      cases block with
      | account p =>
        obtain rfl : p = 0 := Option.some.inj he
        exact hblock
      | string p field => simp [Allocation.account?] at he
    rw [freed_append, List.nodup_append] at hnodup
    exact hnodup.2.2 _ hzero (.account 0) (by simp [freed, Access.freed]) rfl

theorem readsNoFreed_append {as bs : List Access} :
    ReadsNoFreed (as ++ bs) ↔ ReadsNoFreed as ∧ ReadsNoFreed bs ∧
      ∀ p, .free (.account p) ∈ as → .read p ∉ bs := by
  unfold ReadsNoFreed
  rw [List.pairwise_append]
  refine and_congr_right fun _ => and_congr_right fun _ => ⟨fun h p hp hread => ?_, ?_⟩
  · exact h _ hp _ hread p rfl rfl
  · intro h e he e' he' p hfree hread
    subst hfree hread
    exact h p he he'

theorem readsNoFreed_of_no_account {as : List Access} (h : ∀ p, .free (.account p) ∉ as) :
    ReadsNoFreed as := by
  apply List.pairwise_of_forall_mem_list
  intro e he e' _ p hfree
  exact absurd (hfree ▸ he) (h p)

theorem account_not_mem_fields (p q : ℕ) (account : Account) :
    .free (.account q) ∉ freedFields.flatMap (freeField p account) := by
  intro hmem
  obtain ⟨field, -, hfield⟩ := List.mem_flatMap.mp hmem
  unfold freeField at hfield
  split at hfield
  · simp at hfield
  · simp at hfield

theorem read_mem_nodeAccesses {lastAccount : Option ℕ} {nodes : List (ℕ × Account)} {q : ℕ}
    (h : .read q ∈ nodeAccesses lastAccount nodes) : q ∈ nodes.map Prod.fst := by
  induction nodes generalizing lastAccount with
  | nil => simp [nodeAccesses] at h
  | cons node nodes ih =>
    obtain ⟨p, account⟩ := node
    simp only [nodeAccesses, List.mem_append, List.mem_cons, Access.read.injEq] at h
    rcases h with (hlast | hfield) | rfl | hrest
    · cases lastAccount with
      | none => simp [freeLast] at hlast
      | some last => simp [freeLast] at hlast
    · obtain ⟨field, -, hfield⟩ := List.mem_flatMap.mp hfield
      unfold freeField at hfield
      split at hfield
      · simp_all
      · simp_all
    · simp
    · exact List.mem_cons_of_mem _ (ih hrest)

theorem nodeAccesses_readsNoFreed {lastAccount : Option ℕ} {nodes : List (ℕ × Account)}
    (hnodup : (nodes.map Prod.fst).Nodup)
    (hlast : ∀ p, lastAccount = some p → p ∉ nodes.map Prod.fst) :
    ReadsNoFreed (nodeAccesses lastAccount nodes) := by
  induction nodes generalizing lastAccount with
  | nil => exact List.Pairwise.nil
  | cons node nodes ih =>
    obtain ⟨p, account⟩ := node
    obtain ⟨hp, hnodup⟩ := List.nodup_cons.mp hnodup
    have hrest : ReadsNoFreed (nodeAccesses (some p) nodes) :=
      ih hnodup fun q hq => Option.some.inj hq ▸ hp
    have hread (q : ℕ) (hq : .read q ∈ nodeAccesses lastAccount ((p, account) :: nodes)) :
        q ∈ ((p, account) :: nodes).map Prod.fst := read_mem_nodeAccesses hq
    rw [nodeAccesses, List.append_assoc] at hread ⊢
    rw [readsNoFreed_append]
    refine ⟨?_, ?_, fun q hfree hq => ?_⟩
    · cases lastAccount with
      | none => exact List.Pairwise.nil
      | some last => exact List.pairwise_singleton _ _
    · rw [readsNoFreed_append]
      refine ⟨readsNoFreed_of_no_account fun q => account_not_mem_fields p q account, ?_,
        fun q hfree => absurd hfree (account_not_mem_fields p q account)⟩
      apply List.Pairwise.cons _ hrest
      intro e _ q hfree
      simp at hfree
    · apply hlast q _ (hread q (List.mem_append_right _ hq))
      cases lastAccount with
      | none => simp [freeLast] at hfree
      | some last =>
        simp only [freeLast, List.mem_singleton, Access.free.injEq,
          Allocation.account.injEq] at hfree
        rw [hfree]

theorem freeSettings_readsNoFreed {heap : List (Cell Account)} {nodes : List (ℕ × Account)}
    (h : NodesAt heap 0 nodes) :
    ReadsNoFreed (nodeAccesses none nodes ++ [.free (.account 0)]) := by
  rw [readsNoFreed_append]
  refine ⟨nodeAccesses_readsNoFreed h.nodup (by simp), List.pairwise_singleton _ _, ?_⟩
  intro p _
  simp

theorem fields_perm : AccountField.all.Perm (.userName :: freedFields) := by decide

theorem strings_perm_iff (p : ℕ) (account : Account) :
    ((freedFields.filter fun field => (account.get field).isSome).map (Allocation.string p)).Perm
        (ownedStrings (p, account)) ↔ account.userName = none := by
  have hperm : (ownedStrings (p, account)).Perm
      (((AccountField.userName :: freedFields).filter fun field =>
        (account.get field).isSome).map (Allocation.string p)) :=
    (fields_perm.filter _).map _
  rw [List.filter_cons] at hperm
  cases hname : account.userName with
  | none =>
    have hget : (account.get .userName).isSome = false := by simp [Account.get, hname]
    rw [hget, if_neg Bool.false_ne_true] at hperm
    simp [hperm.symm]
  | some name =>
    have hget : (account.get .userName).isSome = true := by simp [Account.get, hname]
    rw [hget, if_pos rfl] at hperm
    simp only [reduceCtorEq, iff_false]
    intro h
    have hlength := (h.trans hperm).length_eq
    simp at hlength

/-- The settings are disposed of if and only if they have one account, and this has no user
name. -/
theorem freeSettings_disposes_iff {heap : List (Cell Account)} {nodes : List (ℕ × Account)}
    (h : NodesAt heap 0 nodes) :
    (∃ accesses, freeSettings heap = some accesses ∧ DisposesOf nodes accesses) ↔
      nodes.length = 1 ∧ ∀ node ∈ nodes, node.2.userName = none := by
  have hone (account : Account) :
      (freed (nodeAccesses none [(0, account)] ++ [.free (.account 0)])).Perm
        (ownedBlocks [(0, account)]) ↔ account.userName = none := by
    rw [← strings_perm_iff 0 account, freed_append, freed_nodeAccesses]
    simp only [freeLast, nodeAccesses, freed, List.filterMap_nil, List.filterMap_cons,
      Access.freed, List.nil_append, List.append_nil, ownedBlocks, List.map_cons, List.map_nil,
      List.flatMap_cons, List.flatMap_nil]
    exact (List.perm_append_comm.congr_left _).trans (List.perm_append_left_iff _)
  rw [freeSettings_eq h]
  constructor
  · rintro ⟨accesses, heq, hdisposes⟩
    obtain rfl := Option.some.inj heq
    have hlength := accounts_freed_perm h hdisposes.exact
    obtain ⟨account, rest, rfl⟩ := h.head
    obtain rfl : rest = [] := by simpa using hlength
    exact ⟨rfl, by simpa using (hone account).mp hdisposes.exact⟩
  · rintro ⟨hlength, hname⟩
    obtain ⟨account, rest, rfl⟩ := h.head
    obtain rfl : rest = [] := by simpa using hlength
    exact ⟨_, rfl, (hone account).mpr (hname (0, account) (by simp)), freeSettings_readsNoFreed h⟩

def plainAccount : Account :=
  ⟨none, none, some ['1'], none, none, none, none, none⟩

theorem freeSettings_disposes_plain :
    NodesAt [⟨some plainAccount, some none⟩] 0 [(0, plainAccount)] ∧
      ∃ accesses, freeSettings [⟨some plainAccount, some none⟩] = some accesses ∧
        DisposesOf [(0, plainAccount)] accesses :=
  ⟨.last rfl, (freeSettings_disposes_iff (.last rfl)).mpr ⟨rfl, by simp [plainAccount]⟩⟩

/-- Of two accounts the settings are freed twice and the second one never. -/
theorem freeSettings_twice :
    ¬ ∀ (heap : List (Cell Account)) (nodes : List (ℕ × Account)), NodesAt heap 0 nodes →
      ∃ accesses, freeSettings heap = some accesses ∧ DisposesOf nodes accesses := by
  intro h
  obtain ⟨accesses, heq, hdisposes⟩ :=
    h [⟨some plainAccount, some (some 1)⟩, ⟨some plainAccount, some none⟩]
      [(0, plainAccount), (1, plainAccount)] (.link rfl (.last rfl))
  have hcount := hdisposes.exact.count_eq (.account 0)
  obtain rfl := Option.some.inj heq
  revert hcount
  decide

end VitaMTP
