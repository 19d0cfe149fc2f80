import ShareCli.Foundation.LexicalPath

/-!
# Paths of the mount as paths of the backing tree (`path_remap.rs`)

The paths of an ephemeral mount are translated to the backing tree component by component, as they are written,
so that a `..` is carried over. A relative path is read from the mountpoint.
-/

namespace ShareCli.Fuse.PathRemap

open Foundation
open Foundation.FilePath (joinPath components)

def isAbsolute (path : List Char) : Bool := path.head? = some '/'

def absUnder (backing rel : List Char) : List Char :=
  if rel = [] then backing else joinPath backing rel

/-- `Path` values are compared by their components. -/
def SamePath (path other : List Char) : Prop := components path = components other
deriving Decidable

def stripMountPrefix (mountpoint path : List Char) : Option (List Char) :=
  let mountComps := components mountpoint
  let pathComps := components path
  if pathComps.length < mountComps.length then
    if SamePath path mountpoint then some [] else none
  else if (mountComps.zip pathComps).all fun pair => pair.1 = pair.2 then
    let relComps := pathComps.drop mountComps.length
    if relComps = [] then some [] else some (relComps.foldl joinPath [])
  else none

def absPath (mountpoint path : List Char) : List Char :=
  if isAbsolute path then path else joinPath mountpoint path

def remapMountToBacking (mountpoint backing path : List Char) : Option (List Char) := do
  let rel ← stripMountPrefix mountpoint (absPath mountpoint path)
  return absUnder backing rel

open LexicalPath List
open Foundation.FilePath
open Foundation.LexicalPath (lexical net Within Returns follow)

variable {mount path abs : List Char}

theorem zip_all_iff (f path : FilePath) :
    (¬ path.length < f.length ∧ (f.zip path).all (fun pair => pair.1 = pair.2) = true) ↔ f <+: path := by
  induction f generalizing path with
  | nil => simp
  | cons c f ih =>
    cases path with
    | nil => simp
    | cons d path =>
      rw [cons_prefix_cons, ← ih path]
      simp only [length_cons, Nat.add_lt_add_iff_right, zip_cons_cons, all_cons,
        Bool.and_eq_true, decide_eq_true_eq]
      exact and_left_comm

theorem stripMountPrefix_eq (mount path : List Char) : stripMountPrefix mount path =
      if components mount <+: components path then
        some (((components path).drop (components mount).length).foldl joinPath [])
      else none := by
  have hz := zip_all_iff (components mount) (components path)
  unfold stripMountPrefix
  dsimp only
  by_cases hl : (components path).length < (components mount).length
  · have hp : ¬ components mount <+: components path := fun h => absurd hl (hz.mpr h).1
    have hs : ¬ SamePath path mount := by
      intro hs
      rw [hs] at hl
      exact Nat.lt_irrefl _ hl
    rw [if_pos hl, if_neg hs, if_neg hp]
  rw [if_neg hl]
  by_cases ha : ((components mount).zip (components path)).all (fun pair => pair.1 = pair.2) = true
  · rw [if_pos ha, if_pos (hz.mp ⟨hl, ha⟩)]
    split
    case isTrue hn => rw [hn, foldl_nil]
    case isFalse => rfl
  · rw [if_neg ha, if_neg fun h => ha (hz.mpr h).2]

theorem parts_behind_mount {c : List Char} {rs : FilePath}
    (hrest : components abs = components mount ++ c :: rs) (hroot : c ≠ ['/']) :
    IsPart c ∧ (mount ≠ [] → c ≠ ['.']) ∧ ∀ d ∈ rs, IsPart d ∧ d ≠ ['.'] := by
  rcases components_cases abs with rfl | ⟨first, b, ha, hf, hb⟩
  · simp at hrest
  rw [ha] at hrest
  rcases components_cases mount with rfl | ⟨m, ms, hm, -, -⟩
  · rw [components_nil, nil_append] at hrest
    cases hrest
    refine ⟨?_, fun hne => absurd rfl hne, hb⟩
    rcases hf with ⟨-, heq⟩ | ⟨-, hp⟩
    · exact absurd heq hroot
    · exact hp
  · rw [hm] at hrest
    cases hrest
    obtain ⟨hp, hdt⟩ := hb c (by simp)
    exact ⟨hp, fun _ => hdt, fun d hd => hb d (by simp [hd])⟩

theorem components_stripped {rs : FilePath} (hrest : components abs = components mount ++ rs)
    (hroot : rs.head? ≠ some ['/']) : components (rs.foldl joinPath []) = rs := by
  cases rs with
  | nil => simp
  | cons c rs =>
    obtain ⟨hp, -, hpr⟩ := parts_behind_mount hrest (by simpa using hroot)
    have hs : joinPath [] c = c := by simp [joinPath]
    rw [foldl_cons, hs, components_foldl_joinPath hp.1 hpr, components_of_isPart hp]
    rfl

theorem components_joinPath_nil (path : List Char) : components (joinPath path []) = components path := by
  by_cases he : path = []
  · simp [joinPath, he]
  · rw [components_joinPath he (by simp)]
    simp

theorem samePath_mount {rel : List Char} (hrest : components abs = components mount ++ components rel)
    (hr : rel.head? ≠ some '/') : SamePath abs (joinPath mount rel) := by
  unfold SamePath
  by_cases he : mount = []
  · subst he
    simpa [joinPath] using hrest
  rw [hrest, components_joinPath he hr]
  congr 1
  rcases components_cases rel with rfl | ⟨c, rs, hc, hf, -⟩
  · simp
  have hp : IsPart c := by
    rcases hf with ⟨ha, -⟩ | ⟨-, hp⟩
    · exact absurd ha hr
    · exact hp
  rw [hc] at hrest ⊢
  obtain ⟨-, hdt, hpr⟩ := parts_behind_mount hrest hp.ne_root
  symm
  rw [filter_eq_self]
  intro d hd
  rcases mem_cons.mp hd with rfl | hm
  · simpa using hdt he
  · simpa using (hpr d hm).2

theorem samePath_absUnder (back rel : List Char) : SamePath (absUnder back rel) (joinPath back rel) := by
  unfold absUnder
  by_cases he : rel = []
  · rw [if_pos he, he]
    exact (components_joinPath_nil back).symm
  · rw [if_neg he]
    rfl

theorem SamePath.lexical_eq {o : List Char} (h : SamePath path o) : lexical path = lexical o := by
  rw [lexical, lexical, h]

/-- The result lies within the backing directory, and a path outside of the mount is refused. -/
def RemapsInside (mount backing path : List Char) : Prop :=
  (∀ q, remapMountToBacking mount backing path = some q → Within (lexical backing) (lexical q) ∧
    ∃ rel, isAbsolute rel = false ∧ SamePath (absPath mount path) (joinPath mount rel) ∧
      SamePath q (joinPath backing rel)) ∧
  (remapMountToBacking mount backing path = none ↔ ¬ Within (lexical mount) (lexical (absPath mount path)))

/-- What follows the mountpoint in the path. -/
def behindMount (mount path : List Char) : FilePath :=
  (components (absPath mount path)).drop (components mount).length

/-- What follows the mountpoint leads through the mountpoint and through the backing directory, wherever its `..`
go up; and a path that is not written with the mountpoint does not lead there. -/
def Straight (mount backing path : List Char) : Prop :=
  (components mount <+: components (absPath mount path) →
    (behindMount mount path).head? ≠ some ['/'] ∧ Returns (lexical mount) (net (behindMount mount path)) ∧
      Returns (lexical backing) (net (behindMount mount path))) ∧
  (¬ components mount <+: components (absPath mount path) →
    ¬ Within (lexical mount) (lexical (absPath mount path)))
deriving Decidable

theorem remaps_of_prefix (backing : List Char) (hm : components mount <+: components (absPath mount path))
    (hroot : (behindMount mount path).head? ≠ some ['/']) :
    ∃ rel, isAbsolute rel = false ∧ SamePath (absPath mount path) (joinPath mount rel) ∧
      remapMountToBacking mount backing path = some (absUnder backing rel) ∧
      components rel = behindMount mount path := by
  obtain ⟨rs, hrest⟩ := hm
  have hd : behindMount mount path = rs := by
    rw [behindMount, ← hrest, drop_left]
  rw [hd] at hroot
  have hc := components_stripped hrest.symm hroot
  have hr : (rs.foldl joinPath []).head? ≠ some '/' := by
    intro hsl
    rw [← hc, components_of_absolute hsl] at hroot
    exact hroot rfl
  refine ⟨rs.foldl joinPath [], by simpa [isAbsolute] using hr, ?_, ?_, hc.trans hd.symm⟩
  · exact samePath_mount (by rw [hc, hrest]) hr
  · rw [remapMountToBacking, stripMountPrefix_eq, if_pos ⟨rs, hrest⟩]
    unfold behindMount at hd
    rw [hd]
    rfl

theorem root_not_mem_behindMount (hm : components mount <+: components (absPath mount path))
    (hroot : (behindMount mount path).head? ≠ some ['/']) : ['/'] ∉ behindMount mount path := by
  obtain ⟨rs, hrest⟩ := hm
  have hd : behindMount mount path = rs := by
    rw [behindMount, ← hrest, drop_left]
  rw [hd] at hroot ⊢
  cases rs with
  | nil => simp
  | cons c rs =>
    obtain ⟨hc, -, hrs⟩ := parts_behind_mount hrest.symm (by simpa using hroot)
    intro h
    rcases mem_cons.mp h with h | h
    · exact hc.ne_root h.symm
    · exact (hrs _ h).1.ne_root rfl

/-- Only behind the empty mountpoint can there be a root, and then the path is relative to nothing. -/
theorem not_samePath_of_root {rel : List Char} (hm : components mount <+: components abs)
    (hroot : ((components abs).drop (components mount).length).head? = some ['/'])
    (hrel : isAbsolute rel = false) : ¬ SamePath abs (joinPath mount rel) := by
  obtain ⟨rs, hrest⟩ := hm
  rw [← hrest, drop_left] at hroot
  obtain ⟨b, rfl⟩ := head?_eq_some_iff.mp hroot
  have hr : rel.head? ≠ some '/' := by simpa [isAbsolute] using hrel
  rcases components_cases abs with rfl | ⟨first, fs, ha, -, hfs⟩
  · simp at hrest
  rw [ha] at hrest
  rcases components_cases mount with rfl | ⟨m, ms, hmc, -, -⟩
  · intro hs
    have hj : joinPath [] rel = rel := by simp [joinPath, hr]
    rw [SamePath, hj, ha] at hs
    rw [components_nil, nil_append] at hrest
    rcases components_cases rel with rfl | ⟨c, cs, hc, hf, -⟩
    · simp at hs
    · rw [hc] at hs
      rcases hf with ⟨ha', -⟩ | ⟨-, hp⟩
      · exact hr ha'
      · exact hp.ne_root ((cons.inj hs).1.symm.trans (cons.inj hrest).1.symm)
  · rw [hmc] at hrest
    have hmem : ['/'] ∈ fs := by
      rw [← (cons.inj hrest).2]
      simp
    exact absurd rfl (hfs _ hmem).1.ne_root

/-- **Remapping.** The result is right exactly for these paths. -/
theorem remaps_inside_iff (mountpoint backing path : List Char) :
    RemapsInside mountpoint backing path ↔ Straight mountpoint backing path := by
  by_cases hm : components mountpoint <+: components (absPath mountpoint path)
  · simp only [Straight, hm, forall_const, not_true_eq_false, IsEmpty.forall_iff, and_true]
    by_cases hroot : (behindMount mountpoint path).head? = some ['/']
    · refine iff_of_false ?_ fun h => h.1 hroot
      rintro ⟨h, -⟩
      have hsome : ∃ q, remapMountToBacking mountpoint backing path = some q := by
        rw [remapMountToBacking, stripMountPrefix_eq, if_pos hm]
        exact ⟨_, rfl⟩
      obtain ⟨q, hq⟩ := hsome
      obtain ⟨-, rel, hrel, hab, -⟩ := h q hq
      exact not_samePath_of_root hm hroot hrel hab
    · obtain ⟨rel, hre, hab, hr, hc⟩ := remaps_of_prefix backing hm hroot
      have hrl : rel.head? ≠ some '/' := by simpa [isAbsolute] using hre
      have hnr := root_not_mem_behindMount hm hroot
      have hsm := samePath_absUnder backing rel
      have hmount : Within (lexical mountpoint) (lexical (absPath mountpoint path)) ↔
          Returns (lexical mountpoint) (net (behindMount mountpoint path)) := by
        rw [hab.lexical_eq, lexical_joinPath mountpoint hrl, hc, within_follow_iff _ hnr]
      have hback : Within (lexical backing) (lexical (absUnder backing rel)) ↔
          Returns (lexical backing) (net (behindMount mountpoint path)) := by
        rw [hsm.lexical_eq, lexical_joinPath backing hrl, hc, within_follow_iff _ hnr]
      rw [← hmount, ← hback]
      constructor
      · rintro ⟨hin, hnone⟩
        refine ⟨hroot, ?_, (hin _ hr).1⟩
        by_contra hout
        have := hnone.mpr hout
        simp [hr] at this
      · rintro ⟨-, hw, hb⟩
        refine ⟨fun q hq => ?_, by simp [hr, hw]⟩
        obtain rfl := Option.some_inj.mp (hr.symm.trans hq)
        exact ⟨hb, rel, hre, hab, hsm⟩
  · have hn : remapMountToBacking mountpoint backing path = none := by
      rw [remapMountToBacking, stripMountPrefix_eq, if_neg hm]
      rfl
    simp [RemapsInside, Straight, hm, hn]

/-- Going up from both directories and down to them again is no harm. -/
example : Straight "/m".toList "/x/m".toList "/m/../m/a".toList := by decide +kernel

/-- A `..` behind the mountpoint leads out of the backing directory, and one before it is refused. -/
theorem remaps_outside : ¬ RemapsInside "/m".toList "/b".toList "/m/../etc".toList ∧
      ¬ RemapsInside "/m".toList "/b".toList "/x/../m/a".toList := by
  constructor
  · intro h
    have hr : remapMountToBacking "/m".toList "/b".toList "/m/../etc".toList = some "/b/../etc".toList := by
      decide +kernel
    exact absurd (h.1 _ hr).1 (by decide +kernel)
  · intro h
    have hr : remapMountToBacking "/m".toList "/b".toList "/x/../m/a".toList = none := by
      decide +kernel
    exact h.2.mp hr (by decide +kernel)

end ShareCli.Fuse.PathRemap
