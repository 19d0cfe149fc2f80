import ShareCli.Foundation.FileTree

/-!
# What changes do to a tree

For each change that succeeds there is one lemma that says what is where afterwards.
-/

namespace ShareCli.Foundation

open List

namespace FileTree

variable {β : Type} {t t' : FileTree β} {path : FilePath} {p new old : FilePath} {b : β}

theorem file_congr (h : t'.node p = t.node p) : t'.file p = t.file p := by
  simp [file, h]

theorem file_ne_none (hn : t.node p ≠ none) (hd : t.isDir p ≠ true) : t.file p ≠ none := by
  intro hf
  obtain ⟨e, he⟩ := Option.ne_none_iff_exists'.mp hn
  cases e with
  | dir => exact hd (isDir_iff.mpr he)
  | file b => simp [file, he] at hf

theorem node_ne_none_of_isDir (h : t.isDir path = true) : t.node path ≠ none := by
  simp [isDir_iff.mp h]

theorem readFile_eq_ok : t.readFile path = .ok b ↔ t.file path = some b := by
  rw [file_eq_some_iff]
  unfold readFile
  split
  · rename_i b' h
    simp [h]
  · rename_i h
    simp [h]
  · rename_i h
    simp [h]

theorem writeFile_eq_ok {make : Option β → β} (h : t.writeFile path make = .ok t') :
    t.isDir path = false ∧ t.isDir path.dropLast = true ∧
      ∀ p, t'.node p = if p = path then some (.file (make (t.file path))) else t.node p := by
  unfold writeFile at h
  split_ifs at h with hp hpr
  cases h
  exact ⟨hp, hpr, node_put _ hpr hp⟩

theorem exists_writeFile_eq_ok (make : Option β → β) (hp : t.isDir path = false)
    (hpr : t.isDir path.dropLast = true) : ∃ t', t.writeFile path make = .ok t' := by
  simp [writeFile, hp, hpr]

theorem createNew_eq_ok (h : t.createNew path b = .ok t') :
    t.node path = none ∧ ∀ p, t'.node p = if p = path then some (.file b) else t.node p := by
  unfold createNew at h
  split_ifs at h with hm
  exact ⟨isMissing_iff.mp hm, (writeFile_eq_ok h).2.2⟩

theorem modify_eq_ok {make : β → β} (h : t.modify path make = .ok t') : ∃ b, t.file path = some b ∧
      ∀ p, t'.node p = if p = path then some (.file (make b)) else t.node p := by
  unfold modify at h
  split at h
  · cases h
  · rename_i b hb
    exact ⟨b, readFile_eq_ok.mp hb, (writeFile_eq_ok h).2.2⟩

theorem mkdir_eq_ok (h : t.mkdir path = .ok t') :
    t.node path = none ∧ ∀ p, t'.node p = if p = path then some .dir else t.node p := by
  unfold mkdir at h
  split_ifs at h with hm hpr
  cases h
  exact ⟨isMissing_iff.mp hm, node_put _ hpr (isDir_of_isMissing hm)⟩

theorem unlink_eq_ok (h : t.unlink path = .ok t') :
    (∃ b, t.file path = some b) ∧ ∀ p, t'.node p = if p = path then none else t.node p := by
  unfold unlink at h
  split at h
  · cases h
  · cases h
  · rename_i b hb
    cases h
    exact ⟨⟨b, file_eq_some_iff.mpr hb⟩, node_erase _ _⟩

theorem unlink_eq_error {e : Errno} (h : t.unlink path = .error e) :
    t.node path = none ∨ t.node path = some .dir := by
  unfold unlink at h
  split at h
  · rename_i hn
    exact .inl hn
  · rename_i hd
    exact .inr hd
  · cases h

theorem rmdir_eq_ok (h : t.rmdir path = .ok t') :
    t.node path = some .dir ∧ ∀ p, t'.node p = if p = path then none else t.node p := by
  unfold rmdir at h
  split at h
  · cases h
  · cases h
  · rename_i hd
    split_ifs at h with hroot he
    cases h
    exact ⟨hd, node_erase hroot he⟩

theorem node_below_of_obstacle {e : Entry β} (h : t.obstacle e new = none) {below : FilePath}
    (hb : new <+: below) (hne : below ≠ new) : t.node below = none := by
  by_cases hd : t.node new = some .dir
  · have he : t.children new = [] := by
      cases e with
      | file b => simp [obstacle, hd] at h
      | dir => simpa [obstacle, hd] using h
    exact node_below_of_children he hb hne
  · exact node_below hd hb hne

/-- What was at and below the old path is at the new one. -/
theorem rename_eq_ok (h : t.rename old new = .ok t') : t.node old ≠ none ∧ (old = new ∧ t' = t ∨
      ¬ old <+: new ∧ (∀ below, new <+: below → below ≠ new → t.node below = none) ∧ ∀ p, t'.node p =
          if new <+: p then t.node (old ++ p.drop new.length)
          else if old <+: p then none else t.node p) := by
  unfold rename at h
  split at h
  · cases h
  rename_i e hold
  refine ⟨by simp [hold], ?_⟩
  split at h
  · rename_i heq
    exact .inl ⟨heq, (Except.ok.inj h).symm⟩
  split at h
  · rename_i hb
    split at h
    · rename_i hpr
      split at h
      · cases h
      · rename_i ho
        split_ifs at h with hn
        cases h
        exact .inr ⟨hb, fun below => node_below_of_obstacle ho, fun p => rfl⟩
    · cases h
  · cases h

theorem rename_eq_ok_of_file (h : t.rename old new = .ok t') (hf : t.file old = some b) (hne : old ≠ new)
    (p : FilePath) :
    t'.node p = if p = new then some (.file b) else if p = old then none else t.node p := by
  have hold := file_eq_some_iff.mp hf
  have hn : t.node old ≠ some .dir := by simp [hold]
  obtain ⟨-, ⟨heq, -⟩ | ⟨hb, hnt, hnd⟩⟩ := rename_eq_ok h
  · exact absurd heq hne
  rw [hnd]
  by_cases hp : p = new
  · subst hp
    simp [hold]
  rw [if_neg hp]
  by_cases hpr : new <+: p
  · -- Nothing was below the new path, and nothing is below a file.
    obtain ⟨rs, rfl⟩ := hpr
    have hrest : rs ≠ [] := by
      rintro rfl
      simp at hp
    have hg : t.node (old ++ rs) = none := node_below hn (prefix_append _ _) (by simpa using hrest)
    rw [if_pos (prefix_append _ _), drop_left, hg]
    split
    · rfl
    · exact (hnt _ (prefix_append _ _) hp).symm
  rw [if_neg hpr]
  by_cases hpl : p = old
  · simp [hpl]
  rw [if_neg hpl]
  split_ifs with hu
  · exact (node_below hn hu hpl).symm
  · rfl

theorem rename_ne_exdev {e : Errno} (h : t.rename old new = .error e) : e ≠ .exdev := by
  have ha : ∀ p, t.absence p ≠ .exdev := by
    intro p
    unfold absence
    split <;> decide
  have ho : ∀ node e, t.obstacle node new = some e → e ≠ .exdev := by
    intro node e he
    unfold obstacle at he
    split at he
    · cases he
      decide
    · cases he
      decide
    · split at he
      · cases he
      · cases he
        decide
    · cases he
  unfold rename at h
  split at h
  · cases h
    exact ha old
  split at h
  · cases h
  split at h
  · split at h
    · split at h
      · rename_i e' he'
        cases h
        exact ho _ _ he'
      · split at h
        · cases h
        · cases h
          decide
    · cases h
      exact ha new
  · cases h
    decide

theorem mkdirs_node (ps : List FilePath) (p : FilePath) : (t.mkdirs ps).2.node p = t.node p ∨
      t.node p = none ∧ (t.mkdirs ps).2.node p = some .dir ∧ p ∈ ps := by
  induction ps generalizing t with
  | nil => exact .inl rfl
  | cons path ps ih =>
    unfold mkdirs
    split
    · rcases ih (t := t) with h | ⟨hn, hd, hme⟩
      · exact .inl h
      · exact .inr ⟨hn, hd, mem_cons_of_mem _ hme⟩
    split
    · rename_i next hm
      obtain ⟨hp, hnd⟩ := mkdir_eq_ok hm
      by_cases heq : p = path
      · subst heq
        refine .inr ⟨hp, ?_, mem_cons_self⟩
        rcases ih (t := next) with h | ⟨hn, _, _⟩
        · rw [h, hnd, if_pos rfl]
        · simp [hnd] at hn
      · have hs : next.node p = t.node p := by rw [hnd, if_neg heq]
        rcases ih (t := next) with h | ⟨hn, hd, hme⟩
        · exact .inl (h.trans hs)
        · exact .inr ⟨hs ▸ hn, hd, mem_cons_of_mem _ hme⟩
    · exact .inl rfl

theorem mkdirs_node_of_ne_none (ps : List FilePath) (h : t.node p ≠ none) :
    (t.mkdirs ps).2.node p = t.node p := by
  rcases mkdirs_node (t := t) ps p with hs | ⟨hn, -, -⟩
  · exact hs
  · exact absurd hn h

variable {ps : List FilePath}

theorem mkdirs_node_of_not_mem (h : p ∉ ps) : (t.mkdirs ps).2.node p = t.node p := by
  rcases mkdirs_node (t := t) ps p with hs | ⟨-, -, hme⟩
  · exact hs
  · exact absurd hme h

theorem mkdirs_isDir (h : (t.mkdirs ps).1 = none) : ∀ p ∈ ps, (t.mkdirs ps).2.isDir p = true := by
  induction ps generalizing t with
  | nil => simp
  | cons path ps ih =>
    have hs : ∀ {s : FileTree β}, s.isDir path = true → (s.mkdirs ps).2.isDir path = true := by
      intro s hd
      rw [isDir_iff, mkdirs_node_of_ne_none ps (node_ne_none_of_isDir hd)]
      exact isDir_iff.mp hd
    intro p hp
    unfold mkdirs at h ⊢
    split_ifs at h with hd
    · rw [if_pos hd]
      rcases mem_cons.mp hp with rfl | hp
      · exact hs hd
      · exact ih h p hp
    · rw [if_neg hd]
      split at h
      · rename_i next hm
        rcases mem_cons.mp hp with rfl | hp
        · refine hs (isDir_iff.mpr ?_)
          rw [(mkdir_eq_ok hm).2, if_pos rfl]
        · exact ih h p hp
      · cases h

theorem mkdirs_append (ps ps' : List FilePath) : t.mkdirs (ps ++ ps') =
      match t.mkdirs ps with
      | (none, t) => t.mkdirs ps'
      | (some e, t) => (some e, t) := by
  induction ps generalizing t with
  | nil => rfl
  | cons path ps ih =>
    simp only [cons_append, mkdirs]
    split
    · exact ih
    · split
      · exact ih
      · rfl

theorem mkdirs_file (ps : List FilePath) (p : FilePath) : (t.mkdirs ps).2.file p = t.file p := by
  rcases mkdirs_node (t := t) ps p with h | ⟨hn, hd, -⟩
  · exact file_congr h
  · simp [file, hn, hd]

/-- No file is in the way. -/
theorem mkdirs_inits_eq_none_iff (path : FilePath) :
    (t.mkdirs path.inits).1 = none ↔ ∀ p, p <+: path → t.file p = none := by
  induction path using reverseRecOn with
  | nil =>
    have hroot : t.isDir [] = true := isDir_iff.mpr t.root
    simp [mkdirs, hroot, file, t.root]
  | append_singleton path name ih =>
    rw [inits_append, mkdirs_append]
    have hs : (∀ p, p <+: path ++ [name] → t.file p = none) ↔
        (∀ p, p <+: path → t.file p = none) ∧ t.file (path ++ [name]) = none := by
      constructor
      · intro h
        exact ⟨fun p hp => h p (hp.trans (prefix_append _ _)), h _ (prefix_refl _)⟩
      · rintro ⟨ha, hl⟩ p hp
        rcases prefix_concat_iff.mp hp with rfl | hp
        · exact hl
        · exact ha p hp
    rw [hs, ← ih]
    have hpr : (t.mkdirs path.inits).1 = none →
        ∀ p ∈ path.inits, (t.mkdirs path.inits).2.isDir p = true := mkdirs_isDir
    have hf := mkdirs_file (t := t) path.inits (path ++ [name])
    generalize t.mkdirs path.inits = made at hpr hf
    obtain ⟨error, t'⟩ := made
    cases error with
    | some e => simp
    | none =>
      have hd := hpr rfl path (by simp)
      rw [← hf]
      by_cases hl : t'.isDir (path ++ [name]) = true
      · simp [mkdirs, hl, file, isDir_iff.mp hl]
      · by_cases hm : t'.isMissing (path ++ [name]) = true
        · simp [mkdirs, mkdir, hl, hm, hd, file, isMissing_iff.mp hm]
        · have ht := file_ne_none (mt isMissing_iff.mpr hm) hl
          simp [mkdirs, mkdir, hl, hm, ht]

end FileTree

end ShareCli.Foundation
