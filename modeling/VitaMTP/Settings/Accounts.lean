import VitaMTP.Database.Operations
import VitaMTP.Library.Cells

/-! The accounts in the settings of the device. -/
namespace VitaMTP
open Cells

/-- The nodes of a parsed document. -/
inductive XmlNode
  | text (content : CString)
  | element (name : CString) (props : List (CString × CString)) (children : List XmlNode)

namespace XmlNode

/-- libxml2 calls every text node `text`. -/
def name : XmlNode → CString
  | text _ => "text".toList
  | element name _ _ => name

def children : XmlNode → List XmlNode
  | text _ => []
  | element _ _ children => children

/-- `xmlGetProp` -/
def getProp : XmlNode → CString → Option CString
  | text _, _ => none
  | element _ props _, name => (props.find? fun prop => prop.1 == name).map Prod.snd

end XmlNode

/-- `struct account` without its link. A missing property is a null pointer. -/
structure Account where
  userName : Option CString
  signInId : Option CString
  accountId : Option CString
  countryCode : Option CString
  langCode : Option CString
  birthday : Option CString
  onlineUser : Option CString
  passwd : Option CString
  deriving DecidableEq, Repr

def Account.ofNode (node : XmlNode) : Account where
  userName := node.getProp "userName".toList
  signInId := node.getProp "signInId".toList
  accountId := node.getProp "accountId".toList
  countryCode := node.getProp "countryCode".toList
  langCode := node.getProp "langCode".toList
  birthday := node.getProp "birthday".toList
  onlineUser := node.getProp "onlineUser".toList
  passwd := node.getProp "passwd".toList

def XmlNode.isNpAccount (node : XmlNode) : Bool := node.name == "npAccount".toList

def XmlNode.isAccounts (node : XmlNode) : Bool := node.name == "accounts".toList

/-- The loop over the nodes of an `accounts` element, with `current_account` at the address
`current`. -/
def accountLoop : List XmlNode → ℕ → List (Cell Account) → List (Cell Account)
  | [], _, heap => heap
  | innerNode :: rest, current, heap =>
    if innerNode.isNpAccount then
      let account := Account.ofNode innerNode
      match rest with
      | [] => heap.set current ⟨some account, some none⟩
      | _ :: _ =>
        -- the next account is allocated for whatever node is behind this one
        let nextAccount := heap.length
        accountLoop rest nextAccount
          (heap.set current ⟨some account, some (some nextAccount)⟩ ++ [.fresh])
    else accountLoop rest current heap

/-- The loop over the nodes of the root. `&settings_info->current_account` is the address 0. -/
def settingsLoop : List XmlNode → List (Cell Account) → List (Cell Account)
  | [], heap => heap
  | node :: rest, heap =>
    settingsLoop rest (if node.isAccounts then accountLoop node.children 0 heap else heap)

/-- `VitaMTP_Data_Settings_From_XML`, on the root of the document. -/
def settingsFromXml (root : XmlNode) : Option (List (Cell Account)) :=
  if root.name ≠ "settingInfo".toList then none
  else
    match root.children with
    | [] => none
    | nodes => some (settingsLoop nodes [.fresh])

/-- The `npAccount` children of a node. -/
def npAccounts (nodes : List XmlNode) : List Account :=
  (nodes.filter XmlNode.isNpAccount).map Account.ofNode

def XmlNode.accounts (root : XmlNode) : List Account :=
  (root.children.filter XmlNode.isAccounts).flatMap fun node => npAccounts node.children

theorem npAccounts_cons (node : XmlNode) (nodes : List XmlNode) :
    npAccounts (node :: nodes) =
      if node.isNpAccount then Account.ofNode node :: npAccounts nodes else npAccounts nodes := by
  unfold npAccounts
  rw [List.filter_cons]
  split <;> rfl

/-- The last node of an element is an account. -/
def endsInAccount (nodes : List XmlNode) : Bool := nodes.getLast?.any XmlNode.isNpAccount

theorem endsInAccount_cons (node : XmlNode) {nodes : List XmlNode} (h : nodes ≠ []) :
    endsInAccount (node :: nodes) = endsInAccount nodes := by
  obtain ⟨next, rest, rfl⟩ := List.exists_cons_of_ne_nil h
  unfold endsInAccount
  rw [List.getLast?_cons_cons]

theorem npAccounts_ne_nil {nodes : List XmlNode} (h : endsInAccount nodes = true) :
    npAccounts nodes ≠ [] := by
  obtain ⟨node, hlast, hnode⟩ := (Option.any_eq_true _ _).mp h
  unfold npAccounts
  rw [ne_eq, List.map_eq_nil_iff, List.filter_eq_nil_iff]
  exact fun hnone => hnone node (List.mem_of_getLast? hlast) hnode

/-- A loop over the nodes of an element. All other accounts are left alone, and the one it starts
with leads through all accounts of the element, to a null pointer only if the last node is one of
them. -/
theorem accountLoop_spec {nodes : List XmlNode} {current : ℕ} {heap : List (Cell Account)}
    (hcurrent : current < heap.length) :
    heap.length ≤ (accountLoop nodes current heap).length ∧
      (∀ p < heap.length, p ≠ current → (accountLoop nodes current heap)[p]? = heap[p]?) ∧
      if npAccounts nodes = [] then accountLoop nodes current heap = heap
      else if endsInAccount nodes then
        ListAt (accountLoop nodes current heap) current (npAccounts nodes)
      else Dangling (accountLoop nodes current heap) current := by
  induction nodes generalizing current heap with
  | nil => simp [accountLoop, npAccounts]
  | cons node rest ih =>
    by_cases hnode : node.isNpAccount
    · cases rest with
      | nil =>
        have hhere : (heap.set current ⟨some (Account.ofNode node), some none⟩)[current]? =
            some ⟨some (Account.ofNode node), some none⟩ := List.getElem?_set_self hcurrent
        have hends : endsInAccount [node] = true := hnode
        simp only [accountLoop, npAccounts_cons, hnode, if_true, hends, List.length_set, le_refl,
          true_and, reduceCtorEq, if_false]
        exact ⟨fun p _ hp => List.getElem?_set_ne (Ne.symm hp), .last hhere⟩
      | cons next rest =>
        set heap₁ := heap.set current ⟨some (Account.ofNode node), some (some heap.length)⟩ ++
          [.fresh] with hheap₁
        have hlength : heap₁.length = heap.length + 1 := by simp [hheap₁]
        have hfresh : heap₁[heap.length]? = some .fresh := by simp [hheap₁]
        have hhere : heap₁[current]? =
            some ⟨some (Account.ofNode node), some (some heap.length)⟩ := by
          rw [hheap₁, List.getElem?_append_left (by simpa using hcurrent),
            List.getElem?_set_self hcurrent]
        have hrun : accountLoop (node :: next :: rest) current heap =
            accountLoop (next :: rest) heap.length heap₁ := by
          rw [accountLoop, if_pos hnode, hheap₁]
        obtain ⟨hgrows, hframe, hresult⟩ := @ih heap.length heap₁ (by omega)
        have hlink : (accountLoop (next :: rest) heap.length heap₁)[current]? =
            some ⟨some (Account.ofNode node), some (some heap.length)⟩ :=
          (hframe current (by omega) (by omega)).trans hhere
        rw [hrun, npAccounts_cons, if_pos hnode, endsInAccount_cons node (by simp)]
        refine ⟨by omega, fun p hp hne => ?_, ?_⟩
        · rw [hframe p (by omega) (by omega), hheap₁,
            List.getElem?_append_left (by simpa using hp), List.getElem?_set_ne (Ne.symm hne)]
        · simp only [reduceCtorEq, if_false]
          by_cases hnone : npAccounts (next :: rest) = []
          · rw [if_pos hnone] at hresult
            have hends : ¬ endsInAccount (next :: rest) = true :=
              fun h => npAccounts_ne_nil h hnone
            rw [if_neg hends]
            exact .link hlink (.here (hresult ▸ hfresh))
          · rw [if_neg hnone] at hresult
            split_ifs at hresult ⊢
            · exact .link hlink hresult
            · exact .link hlink hresult
    · have hrun : accountLoop (node :: rest) current heap = accountLoop rest current heap := by
        rw [accountLoop, if_neg hnode]
      have hspec := ih hcurrent
      rw [hrun, npAccounts_cons, if_neg hnode]
      by_cases hnone : npAccounts rest = []
      · rw [if_pos hnone] at hspec ⊢
        exact hspec
      · have hrest : rest ≠ [] := by
          rintro rfl
          exact hnone rfl
        rwa [endsInAccount_cons node hrest]

/-- The nodes of each `accounts` element that has an account. -/
def accountGroups (nodes : List XmlNode) : List (List XmlNode) :=
  ((nodes.filter XmlNode.isAccounts).map XmlNode.children).filter fun nodes => npAccounts nodes ≠ []

theorem accountGroups_accounts (nodes : List XmlNode) :
    (accountGroups nodes).flatMap npAccounts =
      (nodes.filter XmlNode.isAccounts).flatMap fun node => npAccounts node.children := by
  unfold accountGroups
  induction nodes.filter XmlNode.isAccounts with
  | nil => rfl
  | cons node nodes ih =>
    rw [List.map_cons, List.filter_cons, List.flatMap_cons, ← ih]
    by_cases hnone : npAccounts node.children = []
    · simp [hnone]
    · simp [hnone]

theorem settingsLoop_eq {nodes : List XmlNode} {heap : List (Cell Account)}
    (hheap : 0 < heap.length) :
    settingsLoop nodes heap =
      (accountGroups nodes).foldl (fun heap nodes => accountLoop nodes 0 heap) heap := by
  induction nodes generalizing heap with
  | nil => rfl
  | cons node nodes ih =>
    obtain ⟨hgrows, -, hresult⟩ := @accountLoop_spec node.children 0 heap hheap
    by_cases haccounts : node.isAccounts
    · by_cases hnone : npAccounts node.children = []
      · rw [if_pos hnone] at hresult
        have hgroups : accountGroups (node :: nodes) = accountGroups nodes := by
          simp [accountGroups, haccounts, hnone]
        rw [settingsLoop, if_pos haccounts, hresult, hgroups, ih hheap]
      · have hgroups : accountGroups (node :: nodes) = node.children :: accountGroups nodes := by
          simp [accountGroups, haccounts, hnone]
        rw [settingsLoop, if_pos haccounts, hgroups, List.foldl_cons, ih (by omega)]
    · have hgroups : accountGroups (node :: nodes) = accountGroups nodes := by
        simp [accountGroups, haccounts]
      rw [settingsLoop, if_neg haccounts, hgroups, ih hheap]

theorem accountLoops_length (groups : List (List XmlNode)) {heap : List (Cell Account)}
    (hheap : 0 < heap.length) :
    0 < (groups.foldl (fun heap nodes => accountLoop nodes 0 heap) heap).length := by
  induction groups generalizing heap with
  | nil => exact hheap
  | cons nodes groups ih =>
    exact ih (hheap.trans_le (accountLoop_spec hheap).1)

theorem settingsLoop_last (groups : List (List XmlNode)) {last : List XmlNode}
    (hlast : npAccounts last ≠ []) {heap : List (Cell Account)} (hheap : 0 < heap.length)
    {heap' : List (Cell Account)}
    (hloops : heap' = (groups ++ [last]).foldl (fun heap nodes => accountLoop nodes 0 heap) heap) :
    if endsInAccount last then ListAt heap' 0 (npAccounts last) else Dangling heap' 0 := by
  obtain ⟨-, -, hresult⟩ := @accountLoop_spec last 0 _ (accountLoops_length groups hheap)
  rw [if_neg hlast] at hresult
  rw [List.foldl_append, List.foldl_cons, List.foldl_nil] at hloops
  exact hloops ▸ hresult

theorem settingsFromXml_eq_some {root : XmlNode} {heap : List (Cell Account)} :
    settingsFromXml root = some heap ↔
      root.name = "settingInfo".toList ∧ root.children ≠ [] ∧
        heap = (accountGroups root.children).foldl (fun heap nodes => accountLoop nodes 0 heap)
          [.fresh] := by
  unfold settingsFromXml
  rw [← settingsLoop_eq (by simp)]
  split_ifs with hname
  · constructor
    · simp
    · exact fun h => absurd h.1 hname
  · cases hchildren : root.children with
    | nil => simp
    | cons node nodes =>
      rw [ne_eq, not_not] at hname
      simp [hname, eq_comm]

/-- What can be read from the settings: the accounts of the last element that has any, if it ends
in one of them. -/
theorem read_settings {root : XmlNode} {heap : List (Cell Account)}
    (hparsed : settingsFromXml root = some heap) :
    read heap heap.length 0 =
      (accountGroups root.children).getLast?.bind fun nodes =>
        if endsInAccount nodes then some (npAccounts nodes) else none := by
  obtain ⟨-, -, hheap⟩ := settingsFromXml_eq_some.mp hparsed
  rcases List.eq_nil_or_concat (accountGroups root.children) with hnone | ⟨groups, last, hgroups⟩
  · rw [hnone] at hheap ⊢
    rw [hheap]
    rfl
  · rw [List.concat_eq_append] at hgroups
    have hmem : last ∈ accountGroups root.children := by simp [hgroups]
    have hlast : npAccounts last ≠ [] := by simpa using (List.mem_filter.mp hmem).2
    rw [hgroups] at hheap ⊢
    have hfirst : 0 < ([.fresh] : List (Cell Account)).length := Nat.zero_lt_one
    have hread := settingsLoop_last groups hlast hfirst hheap
    rw [List.getLast?_concat, Option.bind_some]
    split_ifs at hread ⊢
    · exact read_eq_some.mpr hread
    · cases h : read heap heap.length 0 with
      | none => rfl
      | some as => exact absurd (read_eq_some.mp h) hread.not_listAt

/-- The accounts are all there and in order if and only if they are in one element, which ends in
one of them. -/
theorem settings_accounts_iff {root : XmlNode} {heap : List (Cell Account)}
    (hparsed : settingsFromXml root = some heap) :
    ListAt heap 0 root.accounts ↔
      ∃ nodes, accountGroups root.children = [nodes] ∧ endsInAccount nodes = true := by
  obtain ⟨-, -, hheap⟩ := settingsFromXml_eq_some.mp hparsed
  rw [XmlNode.accounts, ← accountGroups_accounts]
  rcases List.eq_nil_or_concat (accountGroups root.children) with hnone | ⟨groups, last, hgroups⟩
  · rw [hnone]
    constructor
    · intro h
      exact absurd rfl h.ne_nil
    · rintro ⟨nodes, h, -⟩
      simp at h
  · rw [List.concat_eq_append] at hgroups
    have hmem (nodes : List XmlNode) (h : nodes ∈ accountGroups root.children) :
        npAccounts nodes ≠ [] := by
      simpa using (List.mem_filter.mp h).2
    rw [hgroups] at hheap
    have hfirst : 0 < ([.fresh] : List (Cell Account)).length := Nat.zero_lt_one
    have hlast := settingsLoop_last groups (hmem last (by simp [hgroups])) hfirst hheap
    rw [hgroups]
    constructor
    · intro h
      by_cases hends : endsInAccount last = true
      · rw [if_pos hends] at hlast
        have haccounts := h.unique hlast
        rw [List.flatMap_append, List.flatMap_singleton, List.append_left_eq_self,
          List.flatMap_eq_nil_iff] at haccounts
        obtain rfl : groups = [] := by
          rw [List.eq_nil_iff_forall_not_mem]
          intro nodes hnodes
          exact hmem nodes (by simp [hgroups, hnodes]) (haccounts nodes hnodes)
        exact ⟨last, rfl, hends⟩
      · rw [if_neg hends] at hlast
        exact absurd h hlast.not_listAt
    · rintro ⟨nodes, hone, hends⟩
      have hsplit : groups = [] ∧ last = nodes := by
        cases groups with
        | nil => exact ⟨rfl, by simpa using hone⟩
        | cons _ _ => simp at hone
      obtain ⟨rfl, rfl⟩ := hsplit
      rw [if_pos hends] at hlast
      rwa [List.nil_append, List.flatMap_singleton]

def sampleSettings (behind : List XmlNode) : XmlNode :=
  .element "settingInfo".toList []
    [.element "accounts".toList []
      (.element "npAccount".toList [("userName".toList, ['u'])] [] :: behind)]

def sampleAccount : Account :=
  Account.ofNode (.element "npAccount".toList [("userName".toList, ['u'])] [])

theorem settings_accounts_sample :
    ListAt [⟨some sampleAccount, some none⟩] 0 (sampleSettings []).accounts := by
  have hparsed : settingsFromXml (sampleSettings []) =
      some [⟨some sampleAccount, some none⟩] := by decide +kernel
  exact (settings_accounts_iff hparsed).mpr
    ⟨[.element "npAccount".toList [("userName".toList, ['u'])] []], by rfl, by decide +kernel⟩

/-- A line break behind the account leaves a second one that nothing was assigned to. -/
theorem settings_accounts_text :
    ∃ heap, settingsFromXml (sampleSettings [.text ['\n']]) = some heap ∧
      heap = [⟨some sampleAccount, some (some 1)⟩, .fresh] ∧
      ¬ ListAt heap 0 (sampleSettings [.text ['\n']]).accounts := by
  refine ⟨_, by decide +kernel, rfl, ?_⟩
  apply Dangling.not_listAt
  exact .link rfl (.here rfl)

end VitaMTP
