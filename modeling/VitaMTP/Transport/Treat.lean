import VitaMTP.Transport.Objects
import VitaMTP.Events.Dispatch

/-! Receiving objects over the transactions of a device, and the tree that these show. -/
namespace VitaMTP
open Dialogues

section wire

variable {σ : Type} (posix : Posix σ) (conv : Converters)

/-- The loop over the handles of a folder. -/
def remoteChildren (get : BitVec 32 → Host σ → Remote (ResultCode × Host σ)) :
    List (BitVec 32) → Host σ → Remote (ResultCode × Host σ)
  | [], s => pure (.OK, s)
  | handle :: handles, s => do
    let (ret, s) ← get handle s
    if ret = .OK then remoteChildren get handles s else pure (ret, s)

/-- What is done with a folder; `children` receives what is in it. -/
def remoteFolder (c : Category) (children : ℤ → Host σ → Remote (ResultCode × Host σ))
    (parent : ℤ) (name : CString) (handle : BitVec 32) (s : Host σ) :
    Remote (ResultCode × Host σ) := do
  let parent ← Dialogue.ofOption (s.db.get? c parent)
  let (s, object) ← Dialogue.ofOption (addReceived posix s c parent name handle DataType.Folder)
  if object.isFile then
    -- below a file; the size is not set for a folder
    let (created, fs) := createNewFile posix s.fs object.path
    if created then .fault
    else Dialogue.ofOption (discard { s with fs := fs } c parent object .Invalid_Permission)
  else
    let (created, fs) := createNewDirectory posix s.fs object.path
    if created then do
      let (ret, s) ← children object.ohfi { s with fs := fs }
      if ret = .OK then pure (.OK, s) else Dialogue.ofOption (discard s c parent object ret)
    else Dialogue.ofOption (discard { s with fs := fs } c parent object .Failed_Operate_Object)

/-- `vitaGetAllObjects` as it asks the device. The folders of a device may be nested without end:
`fuel` is how deep the calls go. -/
def remoteGetAllObjects (c : Category) :
    ℕ → ℤ → BitVec 32 → Host σ → Remote (ResultCode × Host σ)
  | 0, _, _, _ => .fault
  | fuel + 1, parent, handle, s => do
    match ← (vitaMtpGetObject conv handle).run with
    | .error _ => pure (.Invalid_Data, s)
    | .ok (.file name size data) => do
      let name ← Dialogue.ofOption name
      let parent ← Dialogue.ofOption (s.db.get? c parent)
      let (s, object) ← Dialogue.ofOption (addReceived posix s c parent name handle DataType.File)
      Dialogue.ofOption (receiveFile posix s c parent object size data)
    | .ok (.folder name handles) => do
      let name ← Dialogue.ofOption name
      remoteFolder posix c
        (fun object => remoteChildren (remoteGetAllObjects c fuel object) handles) parent name
        handle s

end wire

section told

variable (conv : Converters)

/-- The answers to a `VitaMTP_GetObject`, and what it makes of them. -/
abbrev Gets (handle : BitVec 32) (l : List (Query × Answer)) (r : Except (BitVec 16) GotObject) :
    Prop :=
  Dialogue.Path (vitaMtpGetObject conv handle).run l r

mutual

/-- The answers of a device that is asked for an object and all that is in it. -/
def Tells : DeviceObject → BitVec 32 → List (Query × Answer) → Prop
  | .unavailable, handle, l => ∃ code, Gets conv handle l (.error code)
  | .file name handle' size data, handle, l =>
    handle' = handle ∧ Gets conv handle l (.ok (.file (some name) size data))
  | .folder name handle' children, handle, l =>
    handle' = handle ∧ ∃ handles own below, l = own ++ below ∧
      Gets conv handle own (.ok (.folder (some name) handles)) ∧
      TellsChildren children handles below

def TellsChildren : List DeviceObject → List (BitVec 32) → List (Query × Answer) → Prop
  | [], handles, l => handles = [] ∧ l = []
  | child :: children, handles, l =>
    ∃ handle rest first more, handles = handle :: rest ∧ l = first ++ more ∧
      Tells child handle first ∧ TellsChildren children rest more

end

end told

mutual

def DeviceObject.depth : DeviceObject → ℕ
  | .unavailable => 1
  | .file _ _ _ _ => 1
  | .folder _ _ children => childrenDepth children + 1

def childrenDepth : List DeviceObject → ℕ
  | [] => 0
  | child :: children => max child.depth (childrenDepth children)

end

section simulation

variable {σ : Type} {posix : Posix σ} {conv : Converters} {c : Category} {fuel : ℕ} {object : ℤ}
  {get : BitVec 32 → Host σ → Remote (ResultCode × Host σ)}

theorem exists_tellsChildren (conv : Converters) (handles : List (BitVec 32)) :
    ∃ children l, TellsChildren conv children handles l := by
  induction handles with
  | nil => exact ⟨[], [], rfl, rfl⟩
  | cons handle handles ih =>
    obtain ⟨children, l, h⟩ := ih
    have hrefuse : Gets conv handle [(getObjectPropValue handle PTP_OPC_ObjectFormat,
        { ret := PTP_RC_GeneralError })] (.error PTP_RC_GeneralError) := .ask (.done _)
    exact ⟨.unavailable :: children, _, handle, handles, _, l, rfl, rfl, ⟨_, hrefuse⟩, h⟩

/-- A run over the answers is the one over a tree that the device may show. What it leaves to be
answered comes after a failure. -/
def Shown (conv : Converters) (handle : BitVec 32) (l : List (Query × Answer))
    (all : DeviceObject → Option (ResultCode × Host σ)) (r : ResultCode × Host σ) : Prop :=
  ∃ device more, Tells conv device handle (l ++ more) ∧ all device = some r ∧
    (r.1 = .OK → more = [])

theorem vitaGetAllChildren_cons {child : DeviceObject} {children : List DeviceObject}
    {s s' : Host σ} {ret : ResultCode}
    (h : vitaGetAllObjects posix c object child s = some (ret, s')) :
    vitaGetAllChildren posix c object (child :: children) s =
      if ret = .OK then vitaGetAllChildren posix c object children s' else some (ret, s') := by
  rw [vitaGetAllChildren, h]
  rfl

theorem vitaGetAllObjects_folder {parent : ℤ} {name : CString} {handle : BitVec 32}
    {children : List DeviceObject} {s s₁ : Host σ} {node folder : CmaObject}
    (hnode : s.db.get? c parent = some node)
    (hadd : addReceived posix s c node name handle DataType.Folder = some (s₁, folder)) :
    vitaGetAllObjects posix c parent (.folder name handle children) s =
      if folder.isFile then
        if (createNewFile posix s₁.fs folder.path).1 then none
        else discard { s₁ with fs := (createNewFile posix s₁.fs folder.path).2 } c node folder
          .Invalid_Permission
      else if (createNewDirectory posix s₁.fs folder.path).1 then
        (vitaGetAllChildren posix c folder.ohfi children
          { s₁ with fs := (createNewDirectory posix s₁.fs folder.path).2 }).bind fun r =>
          if r.1 = .OK then some (.OK, r.2) else discard r.2 c node folder r.1
      else discard { s₁ with fs := (createNewDirectory posix s₁.fs folder.path).2 } c node folder
        .Failed_Operate_Object := by
  rw [vitaGetAllObjects, hnode, Option.bind_eq_bind, Option.bind_some, hadd, Option.bind_eq_bind,
    Option.bind_some]
  rfl

theorem remoteChildren_shown
    (hget : ∀ handle s l r, Dialogue.Path (get handle s) l r →
      Shown conv handle l (fun device => vitaGetAllObjects posix c object device s) r)
    {handles : List (BitVec 32)} {s : Host σ} {l : List (Query × Answer)}
    {r : ResultCode × Host σ} (h : Dialogue.Path (remoteChildren get handles s) l r) :
    ∃ children more, TellsChildren conv children handles (l ++ more) ∧
      vitaGetAllChildren posix c object children s = some r ∧ (r.1 = .OK → more = []) := by
  induction handles generalizing s l with
  | nil =>
    cases h
    exact ⟨[], [], ⟨rfl, rfl⟩, by rw [vitaGetAllChildren], fun _ => rfl⟩
  | cons handle handles ih =>
    obtain ⟨first, ⟨ret, s₁⟩, rest, hfirst, hrest, rfl⟩ := Dialogue.path_bind_iff.mp h
    obtain ⟨device, more, htells, hall, hok⟩ := hget handle s first (ret, s₁) hfirst
    dsimp only at hrest hok hall
    by_cases hret : ret = .OK
    · rw [if_pos hret] at hrest
      obtain ⟨children, after, hchildren, hrun, hdone⟩ := ih hrest
      rw [hok hret, List.append_nil] at htells
      refine ⟨device :: children, after, ⟨handle, handles, first, rest ++ after, rfl, ?_, htells,
        hchildren⟩, ?_, hdone⟩
      · rw [List.append_assoc]
      · rw [vitaGetAllChildren_cons hall, if_pos hret, hrun]
    · rw [if_neg hret] at hrest
      cases hrest
      obtain ⟨children, after, hchildren⟩ := exists_tellsChildren conv handles
      refine ⟨device :: children, more ++ after, ⟨handle, handles, first ++ more, after, rfl, ?_,
        htells, hchildren⟩, ?_, fun hcontra => absurd hcontra hret⟩
      · rw [List.append_nil, List.append_assoc]
      · rw [vitaGetAllChildren_cons hall, if_neg hret]

theorem discard_fst {s : Host σ} {parent object : CmaObject} {code : ResultCode}
    {r : ResultCode × Host σ} (h : discard s c parent object code = some r) : r.1 = code := by
  obtain ⟨db, -, hdb⟩ := Option.bind_eq_some_iff.mp h
  exact (congrArg Prod.fst (Option.some.inj hdb)).symm

theorem remoteFolder_shown {below : ℤ → Host σ → Remote (ResultCode × Host σ)}
    {handles : List (BitVec 32)}
    (hbelow : ∀ object s l r, Dialogue.Path (below object s) l r →
      ∃ children more, TellsChildren conv children handles (l ++ more) ∧
        vitaGetAllChildren posix c object children s = some r ∧ (r.1 = .OK → more = []))
    {parent : ℤ} {name : CString} {handle : BitVec 32} {s : Host σ} {l : List (Query × Answer)}
    {r : ResultCode × Host σ}
    (h : Dialogue.Path (remoteFolder posix c below parent name handle s) l r) :
    ∃ children more, TellsChildren conv children handles (l ++ more) ∧
      vitaGetAllObjects posix c parent (.folder name handle children) s = some r ∧
      (r.1 = .OK → more = []) := by
  obtain ⟨node, hnode, h⟩ := Dialogue.path_ofOption_bind_iff.mp h
  obtain ⟨⟨s₁, object⟩, hadd, h⟩ := Dialogue.path_ofOption_bind_iff.mp h
  obtain ⟨refused, after, hrefused⟩ := exists_tellsChildren conv handles
  dsimp only at h
  by_cases hfile : object.isFile
  · rw [if_pos hfile] at h
    by_cases hcreated : (createNewFile posix s₁.fs object.path).1
    · rw [if_pos hcreated] at h
      cases h
    · rw [if_neg hcreated] at h
      obtain ⟨rfl, hdiscard⟩ := Dialogue.path_ofOption_iff.mp h
      refine ⟨refused, after, hrefused, ?_, fun hcontra => ?_⟩
      · rw [vitaGetAllObjects_folder hnode hadd, if_pos hfile, if_neg hcreated, hdiscard]
      · cases (discard_fst hdiscard).symm.trans hcontra
  · rw [if_neg hfile] at h
    by_cases hcreated : (createNewDirectory posix s₁.fs object.path).1
    · rw [if_pos hcreated] at h
      obtain ⟨l, ⟨ret, s₂⟩, rest, hchildren, hend, rfl⟩ := Dialogue.path_bind_iff.mp h
      obtain ⟨children, more, htells, hrun, hok⟩ := hbelow _ _ _ _ hchildren
      dsimp only at hend hok
      by_cases hret : ret = .OK
      · rw [if_pos hret] at hend
        cases hend
        refine ⟨children, more, ?_, ?_, fun _ => hok hret⟩
        · rwa [List.append_nil]
        · rw [vitaGetAllObjects_folder hnode hadd, if_neg hfile, if_pos hcreated, hrun]
          exact if_pos hret
      · rw [if_neg hret] at hend
        obtain ⟨rfl, hdiscard⟩ := Dialogue.path_ofOption_iff.mp hend
        refine ⟨children, more, ?_, ?_, fun hcontra => ?_⟩
        · rwa [List.append_nil]
        · rw [vitaGetAllObjects_folder hnode hadd, if_neg hfile, if_pos hcreated, hrun]
          exact (if_neg hret).trans hdiscard
        · exact absurd ((discard_fst hdiscard).symm.trans hcontra) hret
    · rw [if_neg hcreated] at h
      obtain ⟨rfl, hdiscard⟩ := Dialogue.path_ofOption_iff.mp h
      refine ⟨refused, after, hrefused, ?_, fun hcontra => ?_⟩
      · rw [vitaGetAllObjects_folder hnode hadd, if_neg hfile, if_neg hcreated, hdiscard]
      · cases (discard_fst hdiscard).symm.trans hcontra

/-- Whatever a device answers, the objects received are those of a tree that it may have. -/
theorem remoteGetAllObjects_shown {parent : ℤ} {handle : BitVec 32} {s : Host σ}
    {l : List (Query × Answer)} {r : ResultCode × Host σ}
    (h : Dialogue.Path (remoteGetAllObjects posix conv c fuel parent handle s) l r) :
    Shown conv handle l (fun device => vitaGetAllObjects posix c parent device s) r := by
  induction fuel generalizing parent handle s l r with
  | zero => cases h
  | succ fuel ih =>
    obtain ⟨own, got, rest, hgot, hrest, rfl⟩ := Dialogue.path_bind_iff.mp h
    cases got with
    | error code =>
      cases hrest
      refine ⟨.unavailable, [], ⟨code, ?_⟩, ?_, fun _ => rfl⟩
      · rwa [List.append_nil, List.append_nil]
      · dsimp only
        rw [vitaGetAllObjects]
    | ok got =>
      cases got with
      | file name size data =>
        obtain ⟨name, rfl, hbody⟩ := Dialogue.path_ofOption_bind_iff.mp hrest
        obtain ⟨node, hnode, hbody⟩ := Dialogue.path_ofOption_bind_iff.mp hbody
        obtain ⟨⟨s₁, object⟩, hadd, hbody⟩ := Dialogue.path_ofOption_bind_iff.mp hbody
        obtain ⟨rfl, hreceive⟩ := Dialogue.path_ofOption_iff.mp hbody
        refine ⟨.file name handle size data, [], ⟨rfl, ?_⟩, ?_, fun _ => rfl⟩
        · rwa [List.append_nil, List.append_nil]
        · dsimp only
          rw [vitaGetAllObjects, hnode, Option.bind_eq_bind, Option.bind_some, hadd,
            Option.bind_eq_bind, Option.bind_some]
          exact hreceive
      | folder name handles =>
        obtain ⟨name, rfl, hbody⟩ := Dialogue.path_ofOption_bind_iff.mp hrest
        obtain ⟨children, more, htells, hall, hok⟩ := remoteFolder_shown
          (fun object s l r => remoteChildren_shown fun handle s l r hpath => ih hpath) hbody
        refine ⟨.folder name handle children, more, ⟨rfl, handles, own, rest ++ more, ?_, hgot,
          htells⟩, hall, hok⟩
        rw [List.append_assoc]

/-- A program ends with `r` within the answers, and needs all of them to succeed. -/
def EndsWithin (d : Remote (ResultCode × Host σ)) (l : List (Query × Answer))
    (r : ResultCode × Host σ) : Prop :=
  ∃ first rest, l = first ++ rest ∧ d.Path first r ∧ (r.1 = .OK → rest = [])

theorem remoteChildren_ends {depth : ℕ}
    (hget : ∀ device handle s l r, device.depth ≤ depth → Tells conv device handle l →
      vitaGetAllObjects posix c object device s = some r → EndsWithin (get handle s) l r)
    {children : List DeviceObject} (hdepth : childrenDepth children ≤ depth)
    {handles : List (BitVec 32)} {s : Host σ} {l : List (Query × Answer)}
    {r : ResultCode × Host σ} (htells : TellsChildren conv children handles l)
    (h : vitaGetAllChildren posix c object children s = some r) :
    EndsWithin (remoteChildren get handles s) l r := by
  induction children generalizing handles s l with
  | nil =>
    obtain ⟨rfl, rfl⟩ := htells
    rw [vitaGetAllChildren] at h
    cases h
    exact ⟨[], [], rfl, .done _, fun _ => rfl⟩
  | cons child children ih =>
    obtain ⟨hchild, hchildren⟩ := max_le_iff.mp hdepth
    obtain ⟨handle, handles, own, more, rfl, rfl, hown, hmore⟩ := htells
    obtain ⟨⟨ret, s₁⟩, hall, -⟩ :=
      Option.bind_eq_some_iff.mp (show _ = some r by rwa [vitaGetAllChildren] at h)
    rw [vitaGetAllChildren_cons hall] at h
    obtain ⟨first, rest, rfl, hfirst, hok⟩ := hget _ _ _ _ _ hchild hown hall
    by_cases hret : ret = .OK
    · rw [if_pos hret] at h
      obtain ⟨second, left, rfl, hsecond, hdone⟩ := ih hchildren hmore h
      refine ⟨first ++ second, left, ?_, hfirst.bind ?_, hdone⟩
      · rw [hok hret, List.append_nil, List.append_assoc]
      · dsimp only
        rwa [if_pos hret]
    · rw [if_neg hret] at h
      cases h
      refine ⟨first, rest ++ more, List.append_assoc .., ?_, fun hcontra => absurd hcontra hret⟩
      rw [← List.append_nil first]
      refine hfirst.bind ?_
      dsimp only
      rw [if_neg hret]
      exact .done _

theorem remoteFolder_ends {below : ℤ → Host σ → Remote (ResultCode × Host σ)}
    {children : List DeviceObject} {l : List (Query × Answer)}
    (hbelow : ∀ object s r, vitaGetAllChildren posix c object children s = some r →
      EndsWithin (below object s) l r)
    {parent : ℤ} {name : CString} {handle : BitVec 32} {s : Host σ} {r : ResultCode × Host σ}
    (h : vitaGetAllObjects posix c parent (.folder name handle children) s = some r) :
    EndsWithin (remoteFolder posix c below parent name handle s) l r := by
  obtain ⟨node, hnode, hfolder⟩ :=
    Option.bind_eq_some_iff.mp (show _ = some r by rwa [vitaGetAllObjects] at h)
  obtain ⟨⟨s₁, folder⟩, hadd, -⟩ := Option.bind_eq_some_iff.mp hfolder
  rw [vitaGetAllObjects_folder hnode hadd] at h
  -- it is enough to look at what comes after the folder has been added
  suffices hbody : EndsWithin (if folder.isFile then
      if (createNewFile posix s₁.fs folder.path).1 then .fault
      else Dialogue.ofOption (discard { s₁ with fs := (createNewFile posix s₁.fs folder.path).2 }
        c node folder .Invalid_Permission)
    else if (createNewDirectory posix s₁.fs folder.path).1 then do
      let r ← below folder.ohfi { s₁ with fs := (createNewDirectory posix s₁.fs folder.path).2 }
      if r.1 = .OK then pure (.OK, r.2) else Dialogue.ofOption (discard r.2 c node folder r.1)
    else Dialogue.ofOption (discard
      { s₁ with fs := (createNewDirectory posix s₁.fs folder.path).2 } c node folder
        .Failed_Operate_Object)) l r by
    obtain ⟨first, rest, rfl, hpath, hok⟩ := hbody
    exact ⟨first, rest, rfl, Dialogue.path_ofOption_bind_iff.mpr ⟨node, hnode,
      Dialogue.path_ofOption_bind_iff.mpr ⟨(s₁, folder), hadd, hpath⟩⟩, hok⟩
  by_cases hfile : folder.isFile
  · rw [if_pos hfile] at h ⊢
    by_cases hcreated : (createNewFile posix s₁.fs folder.path).1
    · rw [if_pos hcreated] at h
      cases h
    · rw [if_neg hcreated] at h ⊢
      refine ⟨[], l, rfl, Dialogue.path_ofOption_iff.mpr ⟨rfl, h⟩, fun hcontra => ?_⟩
      cases (discard_fst h).symm.trans hcontra
  · rw [if_neg hfile] at h ⊢
    by_cases hcreated : (createNewDirectory posix s₁.fs folder.path).1
    · rw [if_pos hcreated] at h ⊢
      obtain ⟨⟨ret, s₂⟩, hchildren, hend⟩ := Option.bind_eq_some_iff.mp h
      obtain ⟨first, rest, rfl, hpath, hok⟩ := hbelow _ _ _ hchildren
      dsimp only at hend hok
      by_cases hret : ret = .OK
      · rw [if_pos hret] at hend
        cases hend
        refine ⟨first, rest, rfl, ?_, fun _ => hok hret⟩
        rw [← List.append_nil first]
        refine hpath.bind ?_
        dsimp only
        rw [if_pos hret]
        exact .done _
      · rw [if_neg hret] at hend
        refine ⟨first, rest, rfl, ?_, fun hcontra => ?_⟩
        · rw [← List.append_nil first]
          refine hpath.bind ?_
          dsimp only
          rw [if_neg hret]
          exact Dialogue.path_ofOption_iff.mpr ⟨rfl, hend⟩
        · exact absurd ((discard_fst hend).symm.trans hcontra) hret
    · rw [if_neg hcreated] at h ⊢
      refine ⟨[], l, rfl, Dialogue.path_ofOption_iff.mpr ⟨rfl, h⟩, fun hcontra => ?_⟩
      cases (discard_fst h).symm.trans hcontra

/-- A device that has the tree makes the program do what is done with the tree, if the calls may go
as deep as its folders. -/
theorem remoteGetAllObjects_ends {parent : ℤ} {handle : BitVec 32} {device : DeviceObject}
    {s : Host σ} {l : List (Query × Answer)} {r : ResultCode × Host σ}
    (hdepth : device.depth ≤ fuel) (htells : Tells conv device handle l)
    (h : vitaGetAllObjects posix c parent device s = some r) :
    EndsWithin (remoteGetAllObjects posix conv c fuel parent handle s) l r := by
  induction fuel generalizing parent handle device s l r with
  | zero => cases device <;> simp [DeviceObject.depth] at hdepth
  | succ fuel ih =>
    cases device with
    | unavailable =>
      obtain ⟨code, hgets⟩ := htells
      rw [vitaGetAllObjects] at h
      cases h
      exact ⟨l, [], (List.append_nil l).symm, List.append_nil l ▸ hgets.bind (.done _),
        fun _ => rfl⟩
    | file name handle' size data =>
      obtain ⟨rfl, hgets⟩ := htells
      obtain ⟨node, hnode, hfile⟩ :=
        Option.bind_eq_some_iff.mp (show _ = some r by rwa [vitaGetAllObjects] at h)
      obtain ⟨⟨s₁, object⟩, hadd, hreceive⟩ := Option.bind_eq_some_iff.mp hfile
      refine ⟨l, [], (List.append_nil l).symm, List.append_nil l ▸ hgets.bind ?_, fun _ => rfl⟩
      exact Dialogue.path_ofOption_bind_iff.mpr ⟨name, rfl,
        Dialogue.path_ofOption_bind_iff.mpr ⟨node, hnode,
        Dialogue.path_ofOption_bind_iff.mpr ⟨(s₁, object), hadd,
        Dialogue.path_ofOption_iff.mpr ⟨rfl, hreceive⟩⟩⟩⟩
    | folder name handle' children =>
      obtain ⟨rfl, handles, own, below, rfl, hgets, hbelow⟩ := htells
      have hchildren : childrenDepth children ≤ fuel := by
        rw [DeviceObject.depth] at hdepth
        exact Nat.le_of_succ_le_succ hdepth
      obtain ⟨first, rest, rfl, hpath, hok⟩ := remoteFolder_ends (l := below)
        (fun object s r hrun => remoteChildren_ends
          (fun device handle s l r hdepth htells hall => ih hdepth htells hall)
          hchildren hbelow hrun) h
      refine ⟨own ++ first, rest, (List.append_assoc ..).symm, hgets.bind ?_, hok⟩
      exact Dialogue.path_ofOption_bind_iff.mpr ⟨name, rfl, hpath⟩

end simulation

end VitaMTP
