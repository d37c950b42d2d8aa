import Mathlib.Logic.Relation
import VitaMTP.Database.Contained
import VitaMTP.Database.FiniteTree

/-! The scan of a directory adds exactly the visible entries whose own path can be examined, as
long as no path that was not cut back gets in the way. -/
namespace VitaMTP
open Relation

/-- What is compared of an entry and an object. -/
structure ScanEntry where
  path : CString
  name : Option CString
  isDir : Bool

def CmaObject.scanEntry (o : CmaObject) : ScanEntry := ⟨o.path, o.metadata.name, o.isFolder⟩

namespace DirView

variable (view : DirView)

/-- A visible entry of a directory on whose path `stat` succeeds. -/
def HasEntry (dir : CString) (e : ScanEntry) : Prop :=
  ∃ names name, view.opendir (dir ++ ['/']) = some names ∧ name ∈ names ∧ name.head? ≠ some '.' ∧
    e.path = joinPath dir name ∧ e.name = some name ∧ view.kindAt (joinPath dir name) = some e.isDir

def Subdirectory (dir sub : CString) : Prop :=
  ∃ e, view.HasEntry dir e ∧ e.isDir = true ∧ e.path = sub

/-- An entry of `root` or of a directory below it that the same is true of. -/
def EntryBelow (root : CString) (e : ScanEntry) : Prop :=
  ∃ dir, ReflTransGen view.Subdirectory root dir ∧ view.HasEntry dir e

/-- The names of visible entries, from behind the last one on which `stat` succeeds. -/
def failedNames (dir : CString) : CString → List CString → CString
  | failed, [] => failed
  | failed, name :: names =>
    if name.head? = some '.' then failedNames dir failed names
    else if (view.kindAt (joinPath dir name)).isSome then failedNames dir [] names
    else failedNames dir (failed ++ name) names

/-- With the names that failed in front, every visible entry of every directory looks the same. -/
def Undisturbed (root : CString) : Prop :=
  ∀ dir, ReflTransGen view.Subdirectory root dir →
    ∀ names, view.opendir (dir ++ ['/']) = some names →
    ∀ p name r, names = p ++ name :: r → name.head? ≠ some '.' →
      view.kindAt (joinPath dir (view.failedNames dir [] p ++ name)) =
        view.kindAt (joinPath dir name)

/-- The entries of a directory have different names. -/
def DistinctNames : Prop := ∀ dir names, view.opendir dir = some names → names.Nodup

/-- The entries that `names` of a directory lead to. -/
def EntriesAmong (dir : CString) (names : List CString) (e : ScanEntry) : Prop :=
  ∃ name ∈ names, name.head? ≠ some '.' ∧ ∃ isDir, view.kindAt (joinPath dir name) = some isDir ∧
    (e = ⟨joinPath dir name, some name, isDir⟩ ∨
      isDir = true ∧ view.EntryBelow (joinPath dir name) e)

def UndisturbedAmong (dir failed : CString) (names : List CString) : Prop :=
  (∀ p name r, names = p ++ name :: r → name.head? ≠ some '.' →
    view.kindAt (joinPath dir (view.failedNames dir failed p ++ name)) =
      view.kindAt (joinPath dir name)) ∧
    ∀ name ∈ names, name.head? ≠ some '.' → view.kindAt (joinPath dir name) = some true →
      view.Undisturbed (joinPath dir name)

variable {view}

theorem entryBelow_iff {dir : CString} {e : ScanEntry} :
    view.EntryBelow dir e ↔
      ∃ names, view.opendir (dir ++ ['/']) = some names ∧ view.EntriesAmong dir names e := by
  constructor
  · rintro ⟨sub, hreach, hentry⟩
    rcases hreach.cases_head with rfl | ⟨next, ⟨d, hd, hdir, rfl⟩, hreach⟩
    · obtain ⟨names, name, hopen, hname, hvisible, hpath, hename, hkind⟩ := hentry
      refine ⟨names, hopen, name, hname, hvisible, _, hkind, Or.inl ?_⟩
      rw [← hpath, ← hename]
    · obtain ⟨names, name, hopen, hname, hvisible, hpath, -, hkind⟩ := hd
      refine ⟨names, hopen, name, hname, hvisible, _, hkind, Or.inr ⟨hdir, sub, ?_, hentry⟩⟩
      rwa [← hpath]
  · rintro ⟨names, hopen, name, hname, hvisible, isDir, hkind, rfl | ⟨rfl, sub, hreach, hentry⟩⟩
    · exact ⟨dir, .refl, names, name, hopen, hname, hvisible, rfl, rfl, hkind⟩
    · refine ⟨sub, .head ?_ hreach, hentry⟩
      exact ⟨⟨joinPath dir name, some name, true⟩,
        ⟨names, name, hopen, hname, hvisible, rfl, rfl, hkind⟩, rfl, rfl⟩

theorem undisturbed_iff {dir : CString} :
    view.Undisturbed dir ↔
      ∀ names, view.opendir (dir ++ ['/']) = some names → view.UndisturbedAmong dir [] names := by
  constructor
  · intro h names hopen
    refine ⟨h dir .refl names hopen, fun name hname hvisible hkind sub hreach => ?_⟩
    refine h sub (.head ?_ hreach)
    exact ⟨⟨joinPath dir name, some name, true⟩,
      ⟨names, name, hopen, hname, hvisible, rfl, rfl, hkind⟩, rfl, rfl⟩
  · intro h sub hreach names hopen
    rcases hreach.cases_head with rfl | ⟨next, ⟨d, hd, hdir, rfl⟩, hreach⟩
    · exact (h names hopen).1
    · obtain ⟨names', name, hopen', hname, hvisible, hpath, -, hkind⟩ := hd
      rw [hpath] at hreach
      exact (h names' hopen').2 name hname hvisible (hdir ▸ hkind) sub hreach names hopen

theorem entriesAmong_hidden {dir name : CString} {names : List CString} {e : ScanEntry}
    (hname : name.head? = some '.') :
    view.EntriesAmong dir (name :: names) e ↔ view.EntriesAmong dir names e := by
  rw [EntriesAmong, EntriesAmong, List.exists_mem_cons_iff]
  exact or_iff_right fun h => h.1 hname

theorem entriesAmong_cons {dir name : CString} {names : List CString} {e : ScanEntry}
    (hname : name.head? ≠ some '.') :
    view.EntriesAmong dir (name :: names) e ↔
      (∃ isDir, view.kindAt (joinPath dir name) = some isDir ∧
        (e = ⟨joinPath dir name, some name, isDir⟩ ∨
          isDir = true ∧ view.EntryBelow (joinPath dir name) e)) ∨
      view.EntriesAmong dir names e := by
  rw [EntriesAmong, EntriesAmong, List.exists_mem_cons_iff, and_iff_right hname]

theorem undisturbedAmong_hidden {dir failed name : CString} {names : List CString}
    (hname : name.head? = some '.') :
    view.UndisturbedAmong dir failed (name :: names) ↔ view.UndisturbedAmong dir failed names := by
  have hfailed (p : List CString) :
      view.failedNames dir failed (name :: p) = view.failedNames dir failed p := by
    rw [failedNames, if_pos hname]
  rw [UndisturbedAmong, forall_split_cons, List.forall_mem_cons]
  simp only [hfailed]
  constructor
  · exact fun h => ⟨h.1.2, h.2.2⟩
  · exact fun h => ⟨⟨fun hvisible => absurd hname hvisible, h.1⟩,
      fun hvisible => absurd hname hvisible, h.2⟩

theorem undisturbedAmong_cons {dir failed name : CString} {names : List CString}
    (hname : name.head? ≠ some '.') :
    view.UndisturbedAmong dir failed (name :: names) ↔
      view.kindAt (joinPath dir (failed ++ name)) = view.kindAt (joinPath dir name) ∧
      (view.kindAt (joinPath dir name) = some true → view.Undisturbed (joinPath dir name)) ∧
      view.UndisturbedAmong dir
        (if (view.kindAt (joinPath dir name)).isSome then [] else failed ++ name) names := by
  have hfailed (p : List CString) :
      view.failedNames dir failed (name :: p) = view.failedNames dir
        (if (view.kindAt (joinPath dir name)).isSome then [] else failed ++ name) p := by
    rw [failedNames, if_neg hname]
    split <;> rfl
  rw [UndisturbedAmong, forall_split_cons, List.forall_mem_cons, imp_iff_right hname,
    imp_iff_right hname]
  simp only [hfailed]
  constructor
  · exact fun h => ⟨h.1.1, h.2.1, h.1.2, h.2.2⟩
  · exact fun h => ⟨⟨h.1, h.2.2.1⟩, h.2.1, h.2.2.2⟩

end DirView

/-- The path is `place` or goes on behind a slash. -/
def LiesAt (path place : CString) : Prop :=
  ∃ rest, path = place ++ rest ∧ (rest = [] ∨ rest.head? = some '/')

theorem LiesAt.name_eq {path dir n m : CString} (hn : '/' ∉ n) (hm : '/' ∉ m)
    (h : LiesAt path (joinPath dir n)) (h' : LiesAt path (joinPath dir m)) : n = m := by
  obtain ⟨rest, rfl, hrest⟩ := h
  obtain ⟨rest', hpath', hrest'⟩ := h'
  simp only [joinPath, List.append_assoc, List.cons_append, List.append_cancel_left_eq,
    List.cons.injEq, true_and] at hpath'
  have htake {name rest : CString} (hname : '/' ∉ name)
      (hrest : rest = [] ∨ rest.head? = some '/') :
      (name ++ rest).takeWhile (· ≠ '/') = name := by
    have hall : ∀ c ∈ name, decide (c ≠ '/') = true := by
      intro c hc
      rw [decide_eq_true_eq]
      rintro rfl
      exact hname hc
    rw [List.takeWhile_append_of_pos hall]
    rcases hrest with rfl | hslash
    · simp
    · obtain ⟨tail, rfl⟩ := List.head?_eq_some_iff.mp hslash
      simp
  rw [← htake hn hrest, hpath', htake hm hrest']

namespace DirView

variable {view : DirView}

theorem EntryBelow.path {root : CString} {e : ScanEntry} (h : view.EntryBelow root e) :
    ∃ rest, e.path = root ++ '/' :: rest := by
  obtain ⟨dir, hreach, names, name, -, -, -, hpath, -⟩ := h
  rw [hpath]
  clear hpath
  induction hreach generalizing name with
  | refl => exact ⟨name, rfl⟩
  | tail _ hsub ih =>
    obtain ⟨d, ⟨_, name', -, -, -, hd, -⟩, -, rfl⟩ := hsub
    obtain ⟨rest, hrest⟩ := ih name'
    refine ⟨rest ++ '/' :: name, ?_⟩
    rw [hd, hrest, joinPath, List.append_assoc, List.cons_append]

theorem EntryBelow.liesAt {root : CString} {e : ScanEntry} (h : view.EntryBelow root e) :
    LiesAt e.path root := by
  obtain ⟨rest, hrest⟩ := h.path
  exact ⟨'/' :: rest, hrest, Or.inr rfl⟩

theorem EntryBelow.path_ne {root : CString} {e : ScanEntry} (h : view.EntryBelow root e) :
    e.path ≠ root := by
  obtain ⟨rest, hrest⟩ := h.path
  rw [hrest]
  simp

theorem EntriesAmong.liesAt {dir : CString} {names : List CString} {e : ScanEntry}
    (h : view.EntriesAmong dir names e) : ∃ name ∈ names, LiesAt e.path (joinPath dir name) := by
  obtain ⟨name, hname, -, isDir, -, rfl | ⟨-, hbelow⟩⟩ := h
  · exact ⟨name, hname, [], by simp, Or.inl rfl⟩
  · exact ⟨name, hname, hbelow.liesAt⟩

end DirView

theorem or_iff_or_iff {α : Type*} {x : α} {A A' B B' I J : α → Prop} (hA : ∀ e, A e → I e)
    (hA' : ∀ e, A' e → I e) (hB : ∀ e, B e → J e) (hB' : ∀ e, B' e → J e) (hI : ¬ I x)
    (hJ : ¬ J x) (hIJ : ∀ e, I e → ¬ J e) :
    (∀ e, (e = x ∨ A e ∨ B e) ↔ (e = x ∨ A' e) ∨ B' e) ↔
      (∀ e, A e ↔ A' e) ∧ ∀ e, B e ↔ B' e := by
  constructor
  · intro h
    refine ⟨fun e => ⟨fun ha => ?_, fun ha => ?_⟩, fun e => ⟨fun hb => ?_, fun hb => ?_⟩⟩
    · rcases (h e).mp (Or.inr (Or.inl ha)) with (rfl | ha') | hb
      · exact absurd (hA _ ha) hI
      · exact ha'
      · exact absurd (hB' e hb) (hIJ e (hA e ha))
    · rcases (h e).mpr (Or.inl (Or.inr ha)) with rfl | ha' | hb
      · exact absurd (hA' _ ha) hI
      · exact ha'
      · exact absurd (hB e hb) (hIJ e (hA' e ha))
    · rcases (h e).mp (Or.inr (Or.inr hb)) with (rfl | ha) | hb'
      · exact absurd (hB _ hb) hJ
      · exact absurd (hB e hb) (hIJ e (hA' e ha))
      · exact hb'
    · rcases (h e).mpr (Or.inr hb) with rfl | ha | hb'
      · exact absurd (hB' _ hb) hJ
      · exact absurd (hB' e hb) (hIJ e (hA e ha))
      · exact hb'
  · rintro ⟨ha, hb⟩ e
    rw [ha e, hb e, or_assoc]

/-- The objects of a block show these entries and no others. -/
def Block.ShowsExactly (b : Block) (entries : ScanEntry → Prop) : Prop :=
  ∀ e, e ∈ b.1.map CmaObject.scanEntry ↔ entries e

/-- The objects of the block lie behind a slash in `dir`. -/
def Block.Inside (b : Block) (dir : CString) : Prop :=
  ∀ o ∈ b.1, ∃ rest, o.path = dir ++ '/' :: rest

theorem newObject_scanEntry (count : ℤ) (last : CmaObject) (name : CString) (statbuf : Stat) :
    (newObject count last name statbuf.size statbuf.dataType).scanEntry =
      ⟨joinPath last.path name, some name, statbuf.isDir⟩ := by
  rw [CmaObject.scanEntry, newObject_isFolder]
  rfl

theorem scanEntry_addSize (o : CmaObject) (size : ULong) :
    (o.addSize size).scanEntry = o.scanEntry := rfl

theorem inside_cases {α : Type*} {folder : Bool} {r : Option (List α × ULong)}
    {inside : List α × ULong} (h : (bif folder then r else some ([], 0)) = some inside) :
    (folder = true ∧ r = some inside) ∨ (folder = false ∧ inside = ([], 0)) := by
  cases folder with
  | true => exact Or.inl ⟨rfl, h⟩
  | false => exact Or.inr ⟨rfl, (Option.some.inj h).symm⟩

section block

variable {view : DirView} {below : ℤ → CmaObject → Option Block} {last : CmaObject}

/-- Where the objects of a directory lie: each at or below one of its names, no two at one path. -/
theorem entriesIn_places {names : List CString}
    (hbelow : ∀ count o b, below count o = some b →
      b.Inside o.path ∧ (b.1.map CmaObject.path).Nodup)
    (hslash : ∀ name ∈ names, '/' ∉ name) (hnodup : names.Nodup) {count : ℤ} {fullpath : CString}
    {b : Block} (h : entriesIn view below last count fullpath names = some b) :
    (∀ o ∈ b.1, ∃ name ∈ names, LiesAt o.path (joinPath last.path name)) ∧
      (b.1.map CmaObject.path).Nodup := by
  induction names generalizing count fullpath b with
  | nil =>
    obtain rfl : ([], 0) = b := by simpa [entriesIn] using h
    simp
  | cons name names ih =>
    obtain ⟨hnew, hnodup⟩ := List.nodup_cons.mp hnodup
    have hrest := fun count fullpath b h => @ih
      (fun n hn => hslash n (List.mem_cons_of_mem _ hn)) hnodup count fullpath b h
    have hskip {b : Block} (hb : (∀ o ∈ b.1, ∃ n ∈ names, LiesAt o.path (joinPath last.path n)) ∧
        (b.1.map CmaObject.path).Nodup) :
        (∀ o ∈ b.1, ∃ n ∈ name :: names, LiesAt o.path (joinPath last.path n)) ∧
          (b.1.map CmaObject.path).Nodup := by
      refine ⟨fun o ho => ?_, hb.2⟩
      obtain ⟨n, hn, hat⟩ := hb.1 o ho
      exact ⟨n, List.mem_cons_of_mem _ hn, hat⟩
    simp only [entriesIn] at h
    split_ifs at h
    · exact hskip (hrest _ _ _ h)
    · cases hstat : view.stat (fullpath ++ name) with
      | none => exact hskip (hrest _ _ _ (by simpa [hstat] using h))
      | some statbuf =>
        simp only [hstat, Option.bind_eq_bind, Option.bind_eq_some_iff] at h
        obtain ⟨inside, hin, others, hout, hb⟩ := h
        obtain rfl := Option.some.inj hb
        obtain ⟨hplaces, hothers⟩ := hrest _ _ _ hout
        have hinside : inside.Inside (joinPath last.path name) ∧
            (inside.1.map CmaObject.path).Nodup := by
          rcases inside_cases hin with ⟨-, hin⟩ | ⟨-, rfl⟩
          · exact hbelow _ _ _ hin
          · exact ⟨by simp [Block.Inside], by simp⟩
        have hhere : ∀ o ∈ inside.1, LiesAt o.path (joinPath last.path name) := by
          intro o ho
          obtain ⟨rest, hpath⟩ := hinside.1 o ho
          exact ⟨'/' :: rest, hpath, Or.inr rfl⟩
        have hself : LiesAt (joinPath last.path name) (joinPath last.path name) :=
          ⟨[], by simp, Or.inl rfl⟩
        have hapart {path : CString} (hat : LiesAt path (joinPath last.path name)) :
            path ∉ others.1.map CmaObject.path := by
          intro hmem
          obtain ⟨o, ho, rfl⟩ := List.mem_map.mp hmem
          obtain ⟨n, hn, hat'⟩ := hplaces o ho
          exact hnew (hat.name_eq (hslash name (by simp))
            (hslash n (List.mem_cons_of_mem _ hn)) hat' ▸ hn)
        constructor
        · intro o ho
          rcases List.mem_cons.mp ho with rfl | ho
          · exact ⟨name, by simp, hself⟩
          · rcases List.mem_append.mp ho with ho | ho
            · exact ⟨name, by simp, hhere o ho⟩
            · exact (hskip ⟨hplaces, hothers⟩).1 o ho
        · rw [List.map_cons, List.map_append, List.nodup_cons, List.mem_append, List.nodup_append']
          refine ⟨?_, hinside.2, hothers, fun path hin hout => ?_⟩
          · rintro (hmem | hmem)
            · obtain ⟨o, ho, hpath⟩ := List.mem_map.mp hmem
              obtain ⟨rest, hrest⟩ := hinside.1 o ho
              have hlong := congrArg List.length (hrest.symm.trans hpath)
              simp [CmaObject.addSize, newObject] at hlong
            · exact hapart hself hmem
          · obtain ⟨o, ho, rfl⟩ := List.mem_map.mp hin
            exact hapart (hhere o ho) hout

theorem entriesBelow_places (hnames : view.FileNames) (hdistinct : view.DistinctNames) {n : ℕ}
    {count : ℤ} {b : Block} (h : entriesBelow view n count last = some b) :
    b.Inside last.path ∧ (b.1.map CmaObject.path).Nodup := by
  induction n generalizing last count b with
  | zero => simp [entriesBelow] at h
  | succ n ih =>
    simp only [entriesBelow] at h
    split_ifs at h
    cases hdir : view.opendir (last.path ++ ['/']) with
    | none =>
      obtain rfl : ([], 0) = b := by simpa [hdir] using h
      exact ⟨by simp [Block.Inside], by simp⟩
    | some names =>
      obtain ⟨hplaces, hnodup⟩ := entriesIn_places (fun _ _ _ => ih)
        (fun name hname => (hnames _ _ hdir name hname).2) (hdistinct _ _ hdir)
        (by simpa [hdir] using h)
      refine ⟨fun o ho => ?_, hnodup⟩
      obtain ⟨name, -, rest, hpath, -⟩ := hplaces o ho
      exact ⟨name ++ rest, by rw [hpath, joinPath, List.append_assoc, List.cons_append]⟩

/-- An object and what is below it, in front of the objects of other names: they are right exactly
if each of the three is. -/
theorem showsExactly_cons_iff {dir name : CString} {names : List CString} {isDir : Bool}
    {o : CmaObject} {inside others : Block} {total : ULong}
    (hentry : o.scanEntry = ⟨joinPath dir name, some name, isDir⟩)
    (hvisible : name.head? ≠ some '.')
    (hinside : inside.Inside (joinPath dir name))
    (hothers : ∀ o ∈ others.1, ∃ n ∈ names, LiesAt o.path (joinPath dir n))
    (hapart : ∀ path, LiesAt path (joinPath dir name) →
      ¬ ∃ n ∈ names, LiesAt path (joinPath dir n)) :
    Block.ShowsExactly (o :: (inside.1 ++ others.1), total)
        (view.EntriesAmong dir (name :: names)) ↔
      view.kindAt (joinPath dir name) = some isDir ∧
      (∀ e, e ∈ inside.1.map CmaObject.scanEntry ↔
        isDir = true ∧ view.EntryBelow (joinPath dir name) e) ∧
      others.ShowsExactly (view.EntriesAmong dir names) := by
  have hself : LiesAt (joinPath dir name) (joinPath dir name) := ⟨[], by simp, Or.inl rfl⟩
  have hblock (e : ScanEntry) :
      e ∈ (o :: (inside.1 ++ others.1)).map CmaObject.scanEntry ↔
        e = ⟨joinPath dir name, some name, isDir⟩ ∨ e ∈ inside.1.map CmaObject.scanEntry ∨
          e ∈ others.1.map CmaObject.scanEntry := by
    rw [List.map_cons, List.mem_cons, List.map_append, List.mem_append, hentry]
  by_cases hkind : view.kindAt (joinPath dir name) = some isDir
  · rw [and_iff_right hkind]
    have hnames (e : ScanEntry) : view.EntriesAmong dir (name :: names) e ↔
        (e = ⟨joinPath dir name, some name, isDir⟩ ∨
          (isDir = true ∧ view.EntryBelow (joinPath dir name) e)) ∨
        view.EntriesAmong dir names e := by
      rw [DirView.entriesAmong_cons hvisible, hkind]
      simp
    simp only [Block.ShowsExactly, hblock, hnames]
    refine or_iff_or_iff
      (I := fun e => LiesAt e.path (joinPath dir name) ∧ e.path ≠ joinPath dir name)
      (J := fun e => ∃ n ∈ names, LiesAt e.path (joinPath dir n)) ?_ ?_ ?_ ?_ ?_ ?_ ?_
    · intro e he
      obtain ⟨o', ho', rfl⟩ := List.mem_map.mp he
      obtain ⟨rest, hpath⟩ := hinside o' ho'
      have hpath : o'.scanEntry.path = joinPath dir name ++ '/' :: rest := hpath
      rw [hpath]
      exact ⟨⟨'/' :: rest, rfl, Or.inr rfl⟩, by simp⟩
    · exact fun e he => ⟨he.2.liesAt, he.2.path_ne⟩
    · intro e he
      obtain ⟨o', ho', rfl⟩ := List.mem_map.mp he
      exact hothers o' ho'
    · exact fun e he => he.liesAt
    · exact fun h => h.2 rfl
    · exact hapart _ hself
    · exact fun e he => hapart _ he.1
  · refine iff_of_false (fun hshows => ?_) fun h => hkind h.1
    have hmem := (hshows _).mp ((hblock _).mpr (Or.inl rfl))
    rcases (DirView.entriesAmong_cons hvisible).mp hmem with ⟨k, hk, he | ⟨-, hbelow⟩⟩ | hrest
    · obtain rfl : isDir = k := congrArg ScanEntry.isDir he
      exact hkind hk
    · exact hbelow.path_ne rfl
    · exact hapart _ hself hrest.liesAt

/-- Objects of other names only: they are right exactly if there is nothing at this one. -/
theorem showsExactly_skip_iff {dir name : CString} {names : List CString} {others : Block}
    (hvisible : name.head? ≠ some '.')
    (hothers : ∀ o ∈ others.1, ∃ n ∈ names, LiesAt o.path (joinPath dir n))
    (hapart : ¬ ∃ n ∈ names, LiesAt (joinPath dir name) (joinPath dir n)) :
    others.ShowsExactly (view.EntriesAmong dir (name :: names)) ↔
      view.kindAt (joinPath dir name) = none ∧
        others.ShowsExactly (view.EntriesAmong dir names) := by
  cases hkind : view.kindAt (joinPath dir name) with
  | none =>
    have hsame : ∀ e, view.EntriesAmong dir (name :: names) e ↔ view.EntriesAmong dir names e := by
      intro e
      rw [DirView.entriesAmong_cons hvisible, hkind]
      simp
    simp only [Block.ShowsExactly, hsame, true_and]
  | some isDir =>
    refine iff_of_false (fun hshows => ?_) fun h => by simp at h
    have hentry : view.EntriesAmong dir (name :: names) ⟨joinPath dir name, some name, isDir⟩ :=
      (DirView.entriesAmong_cons hvisible).mpr (Or.inl ⟨isDir, hkind, Or.inl rfl⟩)
    obtain ⟨o, ho, he⟩ := List.mem_map.mp ((hshows _).mpr hentry)
    have hpath : o.path = joinPath dir name := congrArg ScanEntry.path he
    exact hapart (hpath ▸ hothers o ho)

/-- The objects of a directory are the entries its names lead to exactly if nothing gets in the
way. -/
theorem entriesIn_showsExactly {names : List CString}
    (hplaces : ∀ count o b, below count o = some b →
      b.Inside o.path ∧ (b.1.map CmaObject.path).Nodup)
    (hbelow : ∀ count o b, below count o = some b →
      (b.ShowsExactly (view.EntryBelow o.path) ↔ view.Undisturbed o.path))
    (hslash : ∀ name ∈ names, '/' ∉ name) (hnodup : names.Nodup) {count : ℤ} {failed : CString}
    {b : Block} (h : entriesIn view below last count (last.path ++ '/' :: failed) names = some b) :
    b.ShowsExactly (view.EntriesAmong last.path names) ↔
      view.UndisturbedAmong last.path failed names := by
  induction names generalizing count failed b with
  | nil =>
    obtain rfl : ([], 0) = b := by simpa [entriesIn] using h
    refine iff_of_true (fun e => ?_) ⟨fun p name r hsplit => by simp at hsplit, by simp⟩
    simp [DirView.EntriesAmong]
  | cons name names ih =>
    obtain ⟨hnew, hnodup'⟩ := List.nodup_cons.mp hnodup
    have hslash' : ∀ n ∈ names, '/' ∉ n := fun n hn => hslash n (List.mem_cons_of_mem _ hn)
    have hrest := fun count failed b h => @ih hslash' hnodup' count failed b h
    have hapart {path : CString} (hplaces : ∃ n ∈ names, LiesAt path (joinPath last.path n)) :
        ¬ LiesAt path (joinPath last.path name) := by
      obtain ⟨n, hn, hat⟩ := hplaces
      intro hat'
      exact hnew (hat'.name_eq (hslash name (by simp)) (hslash' n hn) hat ▸ hn)
    have hself : LiesAt (joinPath last.path name) (joinPath last.path name) :=
      ⟨[], by simp, Or.inl rfl⟩
    simp only [entriesIn] at h
    split_ifs at h with hvisible
    · rw [DirView.undisturbedAmong_hidden hvisible, ← hrest _ _ _ h]
      exact forall_congr' fun e => iff_congr Iff.rfl (DirView.entriesAmong_hidden hvisible)
    · have hjoin : last.path ++ '/' :: failed ++ name = joinPath last.path (failed ++ name) := by
        simp [joinPath]
      rw [hjoin] at h
      rw [DirView.undisturbedAmong_cons hvisible]
      cases hstat : view.stat (joinPath last.path (failed ++ name)) with
      | none =>
        have hkind : view.kindAt (joinPath last.path (failed ++ name)) = none := by
          rw [DirView.kindAt, hstat]
          rfl
        have hcut : joinPath last.path (failed ++ name) = last.path ++ '/' :: (failed ++ name) :=
          rfl
        rw [hstat, hcut] at h
        rw [hkind, showsExactly_skip_iff hvisible (entriesIn_places hplaces hslash' hnodup' h).1
          fun hplaces => hapart hplaces hself, hrest _ _ _ h, eq_comm]
        refine and_congr_right fun hnone => ?_
        rw [← hnone]
        simp
      | some statbuf =>
        have hkind : view.kindAt (joinPath last.path (failed ++ name)) = some statbuf.isDir := by
          rw [DirView.kindAt, hstat]
          rfl
        simp only [hstat, Option.bind_eq_bind, Option.bind_eq_some_iff] at h
        obtain ⟨inside, hin, others, hout, hb⟩ := h
        obtain rfl := Option.some.inj hb
        have hothers := hrest (count + 1 + inside.1.length) [] others hout
        have hfolder : (newObject count last name statbuf.size statbuf.dataType).isFolder =
            statbuf.isDir := congrArg ScanEntry.isDir (newObject_scanEntry count last name statbuf)
        have hinside : inside.Inside (joinPath last.path name) ∧
            ((∀ e, e ∈ inside.1.map CmaObject.scanEntry ↔
              statbuf.isDir = true ∧ view.EntryBelow (joinPath last.path name) e) ↔
              (statbuf.isDir = true → view.Undisturbed (joinPath last.path name))) := by
          rw [hfolder] at hin
          rcases inside_cases hin with ⟨hdir, hin⟩ | ⟨hdir, rfl⟩
          · simp only [hdir, true_and, true_imp_iff]
            exact ⟨(hplaces _ _ _ hin).1, hbelow _ _ _ hin⟩
          · simp [hdir, Block.Inside]
        have hentry := (scanEntry_addSize _ inside.2).trans
          (newObject_scanEntry count last name statbuf)
        rw [showsExactly_cons_iff hentry hvisible hinside.1
          (entriesIn_places hplaces hslash' hnodup' hout).1
          fun path hat hplaces => hapart hplaces hat, hinside.2, hothers, hkind, eq_comm]
        refine and_congr_right fun hsame => ?_
        rw [← hsame]
        simp

theorem entriesBelow_showsExactly (hnames : view.FileNames) (hdistinct : view.DistinctNames)
    {n : ℕ} {count : ℤ} {b : Block} (h : entriesBelow view n count last = some b) :
    b.ShowsExactly (view.EntryBelow last.path) ↔ view.Undisturbed last.path := by
  induction n generalizing last count b with
  | zero => simp [entriesBelow] at h
  | succ n ih =>
    simp only [entriesBelow] at h
    split_ifs at h
    cases hdir : view.opendir (last.path ++ ['/']) with
    | none =>
      obtain rfl : ([], 0) = b := by simpa [hdir] using h
      refine iff_of_true (fun e => ?_) (DirView.undisturbed_iff.mpr fun names hopen => ?_)
      · simp [DirView.entryBelow_iff, hdir]
      · simp [hdir] at hopen
    | some names =>
      rw [hdir] at h
      have hentries (e : ScanEntry) :
          view.EntryBelow last.path e ↔ view.EntriesAmong last.path names e := by
        simp [DirView.entryBelow_iff, hdir]
      have hnear : view.Undisturbed last.path ↔ view.UndisturbedAmong last.path [] names := by
        simp [DirView.undisturbed_iff, hdir]
      simp only [Block.ShowsExactly, hentries]
      rw [hnear]
      exact entriesIn_showsExactly (fun _ _ _ => entriesBelow_places hnames hdistinct)
        (fun _ _ _ => ih) (fun name hname => (hnames _ _ hdir name hname).2)
        (hdistinct _ _ hdir) h

end block

/-- The scan of the directory of `last` has added one object for each entry below it. -/
def ScanComplete (view : DirView) (db db' : Database) (c : Category) (last : CmaObject) : Prop :=
  ∃ entries : List ScanEntry,
    (db'.lists c).map CmaObject.scanEntry = (db.lists c).map CmaObject.scanEntry ++ entries ∧
    (entries.map ScanEntry.path).Nodup ∧ ∀ e, e ∈ entries ↔ view.EntryBelow last.path e

/-- In a finite tree the scan is complete if and only if the buffer holds all the paths in it and
no entry is disturbed by those in front of it that failed. -/
theorem scan_complete_iff {view : DirView} (hnames : view.FileNames)
    (hdistinct : view.DistinctNames) {paths : CmaPaths} {uuid : CString} {db : Database}
    (h : WellFormed paths uuid db) {c : Category} {last : CmaObject} (hlast : last ∈ db.lists c)
    {n : ℕ} (hnests : view.Nests n last.path) :
    (∃ db', addEntriesForDirectory view c n db last.ohfi = some db' ∧
      ScanComplete view db db' c last) ↔ view.Fits last.path ∧ view.Undisturbed last.path := by
  rw [addEntriesForDirectory_eq view c n db last (h.counted_list c) (h.get?_eq hlast),
    ← entriesBelow_isSome_iff hnests db.ohfiCount]
  cases hb : entriesBelow view n db.ohfiCount last with
  | none => simp
  | some b =>
    simp only [Option.map_some, Option.some.injEq, exists_eq_left', Option.isSome_some, true_and]
    have hlists : (((db.append c b.1).modify c last.ohfi (CmaObject.addSize b.2)).lists c).map
        CmaObject.scanEntry =
          (db.lists c).map CmaObject.scanEntry ++ b.1.map CmaObject.scanEntry := by
      rw [Database.modify, Database.setList_lists_self, Database.append_lists_self, List.map_map,
        ← List.map_append]
      refine List.map_congr_left fun o _ => ?_
      simp only [Function.comp_apply]
      split <;> rfl
    have hpaths : (b.1.map CmaObject.scanEntry).map ScanEntry.path = b.1.map CmaObject.path := by
      rw [List.map_map]
      rfl
    rw [← entriesBelow_showsExactly hnames hdistinct hb]
    constructor
    · rintro ⟨entries, hentries, -, hall⟩
      rw [hlists, List.append_cancel_left_eq] at hentries
      subst hentries
      exact hall
    · intro hall
      exact ⟨_, hlists, hpaths ▸ (entriesBelow_places hnames hdistinct hb).2, hall⟩

theorem sample_undisturbed : sampleView.Undisturbed ['/', 'p'] := by
  have hopen : sampleView.opendir (['/', 'p'] ++ ['/']) = some [['.'], ['d']] := rfl
  have hopen' : sampleView.opendir (joinPath ['/', 'p'] ['d'] ++ ['/']) =
      some [['.', '.'], ['x']] := rfl
  have hfile : sampleView.kindAt (joinPath (joinPath ['/', 'p'] ['d']) ['x']) = some false := rfl
  have hempty (view : DirView) (dir failed : CString) : view.UndisturbedAmong dir failed [] :=
    ⟨by simp, by simp⟩
  rw [DirView.undisturbed_iff, hopen]
  simp only [Option.some.injEq, forall_eq']
  rw [DirView.undisturbedAmong_hidden rfl, DirView.undisturbedAmong_cons (by decide)]
  refine ⟨rfl, fun _ => ?_, hempty _ _ _⟩
  rw [DirView.undisturbed_iff, hopen']
  simp only [Option.some.injEq, forall_eq']
  rw [DirView.undisturbedAmong_hidden rfl, DirView.undisturbedAmong_cons (by decide), hfile]
  exact ⟨hfile, by simp, hempty _ _ _⟩

theorem sample_fileNames : sampleView.FileNames ∧ sampleView.DistinctNames := by
  constructor
  · intro dir names hopen
    simp only [sampleView] at hopen
    split_ifs at hopen
    all_goals
      obtain rfl := Option.some.inj hopen
      decide
  · intro dir names hopen
    simp only [sampleView] at hopen
    split_ifs at hopen
    all_goals
      obtain rfl := Option.some.inj hopen
      decide

/-- The object of the category of photos before the scan. -/
def sampleMaster : CmaObject :=
  ((initDatabase samplePaths ['0']).lists .photos).headD (masterObject samplePaths ['0'] .photos)

theorem scan_complete_sample :
    ∃ db', addEntriesForDirectory sampleView .photos 3 (initDatabase samplePaths ['0']) 2 =
        some db' ∧
      ScanComplete sampleView (initDatabase samplePaths ['0']) db' .photos sampleMaster := by
  have hmem : sampleMaster ∈ (initDatabase samplePaths ['0']).lists .photos := by decide
  exact (scan_complete_iff sample_fileNames.1 sample_fileNames.2
    (WellFormed.init samplePaths ['0']) hmem (sample_nests .photos)).mpr
    ⟨sample_fits .photos, sample_undisturbed⟩

/-- A photo behind an entry that cannot be examined. -/
def danglingView : DirView where
  opendir path := if path = ['/', 'p', '/'] then some [['x'], ['y']] else none
  stat path := if path = ['/', 'p', '/', 'y'] then some { size := 7, isDir := false } else none

/-- The photo is looked for at the path `/p/xy` and left out. -/
theorem scan_dangling :
    ∃ db', addEntriesForDirectory danglingView .photos 3 (initDatabase samplePaths ['0']) 2 =
        some db' ∧
      db'.objects .photos = [] ∧
      danglingView.EntryBelow ['/', 'p'] ⟨['/', 'p', '/', 'y'], some ['y'], false⟩ ∧
      ¬ ScanComplete danglingView (initDatabase samplePaths ['0']) db' .photos sampleMaster := by
  have hentry : danglingView.EntryBelow ['/', 'p'] ⟨['/', 'p', '/', 'y'], some ['y'], false⟩ :=
    ⟨['/', 'p'], .refl, [['x'], ['y']], ['y'], rfl, by decide, by decide, rfl, rfl, rfl⟩
  refine ⟨_, rfl, by rfl, hentry, ?_⟩
  rintro ⟨entries, hentries, -, hall⟩
  have hnone : entries = [] := List.append_right_eq_self.mp (hentries.symm.trans (by rfl))
  have hmem := (hall _).mpr hentry
  rw [hnone] at hmem
  simp at hmem

end VitaMTP
