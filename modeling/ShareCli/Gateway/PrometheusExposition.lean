import ShareCli.Foundation.Decimal
import ShareCli.Foundation.Delimited
import ShareCli.Foundation.FloatText

/-! # Prometheus exposition (`crates/gateway/src/prometheus_exposition.rs`) -/

namespace ShareCli.Gateway.Prometheus

open Foundation List

inductive MetricType where
  | counter
  | gauge
  | histogram
  | summary
deriving DecidableEq

def MetricType.asPromType : MetricType → List Char
  | .counter => "counter".toList
  | .gauge => "gauge".toList
  | .histogram => "histogram".toList
  | .summary => "summary".toList

/-- A metric and its samples. -/
structure Metric (F : Type) where
  name : List Char
  help : List Char
  metricType : MetricType
  samples : List (List (List Char × List Char) × F)

structure FloatOps (F : Type) extends FloatFormat F where
  isNan : F → Bool
  isInfinite : F → Bool
  /-- `v > 0.0` -/
  isPositive : F → Bool
  /-- `v == v.trunc() && v.abs() < 1e15` -/
  isSmallWhole : F → Bool
  /-- `v as i64` -/
  asI64 : F → Int

def escape : Char → List Char
  | '\\' => ['\\', '\\']
  | '"' => ['\\', '"']
  | '\n' => ['\\', 'n']
  | other => [other]

def formatLabel (label : List Char × List Char) : List Char :=
  label.1 ++ '=' :: '"' :: (label.2.flatMap escape ++ ['"'])

def formatLabels (labels : List (List Char × List Char)) : List Char :=
  '{' :: ([','].intercalate (labels.map formatLabel) ++ ['}'])

section

variable {F : Type} (ops : FloatOps F)

def pushValue (v : F) : List Char :=
  if ops.isNan v then "NaN".toList
  else if ops.isInfinite v then if ops.isPositive v then "+Inf".toList else "-Inf".toList
  else if ops.isSmallWhole v then Decimal.formatSigned (ops.asI64 v)
  else ops.display v

def helpLine (m : Metric F) : List Char := "# HELP ".toList ++ m.name ++ ' ' :: m.help

def typeLine (m : Metric F) : List Char := "# TYPE ".toList ++ m.name ++ ' ' :: m.metricType.asPromType

def sampleLine (name : List Char) (sample : List (List Char × List Char) × F) : List Char :=
  name ++ (if sample.1.isEmpty then [] else formatLabels sample.1) ++ ' ' :: pushValue ops sample.2

def metricLines (m : Metric F) : List (List Char) :=
  helpLine m :: typeLine m :: m.samples.map (sampleLine ops m.name)

def render (metrics : List (Metric F)) : List Char :=
  metrics.flatMap fun m =>
    helpLine m ++ '\n' :: (typeLine m ++ '\n' :: m.samples.flatMap fun sample =>
      sampleLine ops m.name sample ++ ['\n'])

end

def isLabelChar (c : Char) : Bool := c.isAlphanum || c = '_'

def isMetricChar (c : Char) : Bool := isLabelChar c || c = ':'

def validName (isChar : Char → Bool) (name : List Char) : Bool :=
  !name.isEmpty && name.all isChar && !name.head?.any Char.isDigit

def validLabels (labels : List (List Char × List Char)) : Bool :=
  labels.all fun label => validName isLabelChar label.1

def Metric.valid {F : Type} (m : Metric F) : Bool :=
  validName isMetricChar m.name && m.samples.all fun sample => validLabels sample.1

variable {F : Type} {ops : FloatOps F} {m : Metric F} {c : Char}

theorem not_mem_of_validName {ic : Char → Bool} {n : List Char} (h : validName ic n = true)
    (hc : ic c = false) : c ∉ n := by
  intro hm
  simp only [validName, Bool.and_eq_true, all_eq_true] at h
  exact Bool.false_ne_true (hc ▸ h.1.2 c hm)

theorem not_mem_pushValue (v : F) (hd : c.isDigit = false) (hc : c ∉ "+I".toList ++ floatChars) :
    c ∉ pushValue ops v := by
  have hw : ∀ w : List Char, w ⊆ "+I".toList ++ floatChars → c ∉ w := fun w hs h => hc (hs h)
  unfold pushValue
  split_ifs
  · exact hw _ (by decide)
  · exact hw _ (by decide)
  · exact hw _ (by decide)
  · intro h
    rcases Decimal.of_mem_formatSigned h with rfl | h
    · exact hc (by decide)
    · exact Bool.false_ne_true (hd ▸ h)
  · exact ops.not_mem_display v fun h => hc (mem_append_right _ h)

theorem newline_not_mem_escape (c : Char) : '\n' ∉ escape c := by
  unfold escape
  split
  · decide
  · decide
  · decide
  · next hne => simpa using fun h : '\n' = c => hne h.symm

theorem newline_not_mem_formatLabel {l : List Char × List Char} (h : validName isLabelChar l.1) :
    '\n' ∉ formatLabel l := by
  have hn := not_mem_of_validName (c := '\n') h (by decide)
  simp [formatLabel, hn, newline_not_mem_escape]

theorem newline_not_mem_sampleLine {n : List Char} {s : List (List Char × List Char) × F}
    (hn : validName isMetricChar n) (hl : validLabels s.1) :
    '\n' ∉ sampleLine ops n s := by
  have hn := not_mem_of_validName (c := '\n') hn (by decide)
  have hv : '\n' ∉ pushValue ops s.2 := not_mem_pushValue s.2 (by decide) (by decide)
  have hl : '\n' ∉ [','].intercalate (s.1.map formatLabel) := by
    refine not_mem_intercalate (by decide) (forall_mem_map.mpr fun l h => ?_)
    exact newline_not_mem_formatLabel (all_eq_true.mp hl l h)
  unfold sampleLine
  split_ifs <;> simp [formatLabels, *]

theorem render_eq (ms : List (Metric F)) :
    render ops ms = terminated '\n' (ms.flatMap (metricLines ops)) := by
  simp [render, terminated, metricLines, flatMap_assoc, flatMap_map]

theorem escape_append_inj {c c' : Char} {rs rs' : List Char}
    (h : escape c ++ rs = escape c' ++ rs') : c = c' ∧ rs = rs' := by
  unfold escape at h
  split at h <;> split at h <;> grind

theorem escape_head (c : Char) (rs rs' : List Char) : '"' :: rs ≠ escape c ++ rs' := by
  unfold escape
  split <;> simp_all [eq_comm]

theorem escaped_append_inj {v v' rs rs' : List Char}
    (h : v.flatMap escape ++ '"' :: rs = v'.flatMap escape ++ '"' :: rs') : v = v' ∧ rs = rs' := by
  induction v generalizing v' with
  | nil =>
    cases v' with
    | nil => exact ⟨rfl, (cons.inj h).2⟩
    | cons c' v' =>
      rw [flatMap_cons, append_assoc] at h
      exact absurd h (escape_head c' _ _)
  | cons c v ih =>
    cases v' with
    | nil =>
      rw [flatMap_cons, append_assoc] at h
      exact absurd h.symm (escape_head c _ _)
    | cons c' v' =>
      rw [flatMap_cons, flatMap_cons, append_assoc, append_assoc] at h
      obtain ⟨rfl, ht⟩ := escape_append_inj h
      obtain ⟨rfl, hrest⟩ := ih ht
      exact ⟨rfl, hrest⟩

theorem formatLabel_append_inj {l l' : List Char × List Char} {rs rs' : List Char}
    (hn : validName isLabelChar l.1) (hn' : validName isLabelChar l'.1)
    (h : formatLabel l ++ rs = formatLabel l' ++ rs') : l = l' ∧ rs = rs' := by
  simp only [formatLabel, append_assoc, cons_append] at h
  obtain ⟨hf, h⟩ := append_sep_inj (not_mem_of_validName hn (by decide))
    (not_mem_of_validName hn' (by decide)) h
  obtain ⟨hs, h⟩ := escaped_append_inj (cons.inj h).2
  exact ⟨Prod.ext hf hs, h⟩

/-- After a label there is either the closing brace or a comma and another label. -/
theorem formatLabels_append_inj {ls ls' : List (List Char × List Char)} {rs rs' : List Char}
    (hne : ls ≠ []) (hne' : ls' ≠ []) (hv : validLabels ls) (hv' : validLabels ls')
    (h : [','].intercalate (ls.map formatLabel) ++ '}' :: rs =
      [','].intercalate (ls'.map formatLabel) ++ '}' :: rs') : ls = ls' := by
  induction ls generalizing ls' with
  | nil => exact absurd rfl hne
  | cons l ls ih =>
    obtain ⟨l', ls', rfl⟩ := exists_cons_of_ne_nil hne'
    obtain ⟨hn, hl⟩ := Bool.and_eq_true_iff.mp hv
    obtain ⟨hn', hl'⟩ := Bool.and_eq_true_iff.mp hv'
    cases ls with
    | nil =>
      cases ls' with
      | nil =>
        simp only [map_cons, map_nil, intercalate_singleton] at h
        rw [(formatLabel_append_inj hn hn' h).1]
      | cons next' ls' =>
        simp only [map_cons, map_nil, intercalate_singleton, intercalate_cons_cons,
          append_assoc, cons_append] at h
        exact absurd (cons.inj (formatLabel_append_inj hn hn' h).2).1 (by decide)
    | cons next ls =>
      cases ls' with
      | nil =>
        simp only [map_cons, map_nil, intercalate_singleton, intercalate_cons_cons,
          append_assoc, cons_append] at h
        exact absurd (cons.inj (formatLabel_append_inj hn hn' h).2).1 (by decide)
      | cons next' ls' =>
        simp only [map_cons, intercalate_cons_cons, append_assoc, cons_append,
          nil_append] at h
        obtain ⟨rfl, hrest⟩ := formatLabel_append_inj hn hn' h
        rw [ih (cons_ne_nil _ _) (cons_ne_nil _ _) hl hl' (cons.inj hrest).2]

/-- A sample without labels has no brace in its line, and the brace of another ends its name. -/
theorem sampleLine_labels {n n' : List Char} {s s' : List (List Char × List Char) × F}
    (hn : validName isMetricChar n) (hn' : validName isMetricChar n')
    (hl : validLabels s.1) (hl' : validLabels s'.1)
    (h : sampleLine ops n s = sampleLine ops n' s') : s.1 = s'.1 := by
  have hb := not_mem_of_validName (c := '{') hn (by decide)
  have hb' := not_mem_of_validName (c := '{') hn' (by decide)
  have hv : ∀ v, '{' ∉ pushValue ops v := fun v => not_mem_pushValue v (by decide) (by decide)
  simp only [sampleLine, formatLabels, List.isEmpty_iff] at h
  split_ifs at h with hnl hnl' hnl'
  · rw [hnl, hnl']
  · have hm : '{' ∈ n ++ [] ++ ' ' :: pushValue ops s.2 := by
      rw [h]
      simp
    simp [hb, hv] at hm
  · have hm : '{' ∈ n' ++ [] ++ ' ' :: pushValue ops s'.2 := by
      rw [← h]
      simp
    simp [hb', hv] at hm
  · simp only [List.append_assoc, List.cons_append] at h
    exact formatLabels_append_inj hnl hnl' hl hl' (append_sep_inj hb hb' h).2

theorem newline_not_mem_metricLines (hv : m.valid) (hh : '\n' ∉ m.help) :
    ∀ row ∈ metricLines ops m, '\n' ∉ row := by
  obtain ⟨hn, hs⟩ := Bool.and_eq_true_iff.mp hv
  have hnw := not_mem_of_validName (c := '\n') hn (by decide)
  have hhd : ∀ start rs : List Char, '\n' ∉ start → '\n' ∉ rs → '\n' ∉ start ++ m.name ++ ' ' :: rs := by
    intro start rs hst hrest
    simp [hst, hnw, hrest]
  have ht : '\n' ∉ m.metricType.asPromType := by cases m.metricType <;> decide
  rw [metricLines, forall_mem_cons, forall_mem_cons, forall_mem_map]
  refine ⟨hhd "# HELP ".toList m.help (by decide) hh, hhd "# TYPE ".toList _ (by decide) ht, ?_⟩
  exact fun s h => newline_not_mem_sampleLine hn (all_eq_true.mp hs s h)

/-- The rendered text has the lines it is meant to have exactly if no help has a line feed in it. The labels of a
sample can always be told from its line. -/
theorem exposition_lines_iff (metrics : List (Metric F)) (hvalid : ∀ m ∈ metrics, m.valid) :
    ((render ops metrics).splitOn '\n' = metrics.flatMap (metricLines ops) ++ [[]] ↔
      ∀ m ∈ metrics, '\n' ∉ m.help) ∧
    ∀ m ∈ metrics, ∀ m' ∈ metrics, ∀ sample ∈ m.samples, ∀ sample' ∈ m'.samples,
      sampleLine ops m.name sample = sampleLine ops m'.name sample' → sample.1 = sample'.1 := by
  refine ⟨⟨fun hl m hm => ?_, fun hh => ?_⟩, fun m hm m' hm' sample hs sample' hs' => ?_⟩
  · have hme : helpLine m ∈ (render ops metrics).splitOn '\n' := by
      rw [hl]
      exact mem_append_left _ (mem_flatMap.mpr ⟨m, hm, mem_cons_self⟩)
    have hnt := not_mem_of_mem_splitOn hme
    exact fun h => hnt (mem_append_right _ (mem_cons_of_mem _ h))
  · rw [render_eq]
    refine splitOn_terminated fun row hr => ?_
    obtain ⟨m, hm, hr⟩ := mem_flatMap.mp hr
    exact newline_not_mem_metricLines (hvalid m hm) (hh m hm) row hr
  · obtain ⟨hn, hlb⟩ := Bool.and_eq_true_iff.mp (hvalid m hm)
    obtain ⟨hn', hlb'⟩ := Bool.and_eq_true_iff.mp (hvalid m' hm')
    exact sampleLine_labels hn hn' (all_eq_true.mp hlb sample hs) (all_eq_true.mp hlb' sample' hs')

/-- The numbers `0` and `0.5`. -/
def halfOps : FloatOps Bool where
  ofInt _ := false
  display half := if half then "0.5".toList else "0".toList
  parse text := if text = "0.5".toList then some true else if text = "0".toList then some false else none
  parse_display := by decide
  mem_display half c h := by
    have hall : (if half then "0.5".toList else "0".toList).all (· ∈ floatChars) = true := by
      cases half <;> decide
    exact of_decide_eq_true (all_eq_true.mp hall c h)
  isNan _ := false
  isInfinite _ := false
  isPositive half := half
  isSmallWhole half := !half
  asI64 _ := 0

def upMetric (help : List Char) : Metric Bool where
  name := "up".toList
  help := help
  metricType := .gauge
  samples := [([("job".toList, "a\"b\n".toList)], true), ([], false)]

theorem exposition_lines_up : ((render halfOps [upMetric ['x']]).splitOn '\n' =
        [upMetric ['x']].flatMap (metricLines halfOps) ++ [[]] ↔
      ∀ m ∈ [upMetric ['x']], '\n' ∉ m.help) ∧
    ∀ m ∈ [upMetric ['x']], ∀ m' ∈ [upMetric ['x']], ∀ sample ∈ m.samples, ∀ sample' ∈ m'.samples,
      sampleLine halfOps m.name sample = sampleLine halfOps m'.name sample' → sample.1 = sample'.1 :=
  exposition_lines_iff [upMetric ['x']] (by decide)

/-- The help `x`, a line feed and `up 1`: the second line of it is a sample to a reader. -/
theorem help_injects_sample : (upMetric "x\nup 1".toList).valid ∧
    "up 1".toList ∈ (render halfOps [upMetric "x\nup 1".toList]).splitOn '\n' ∧
    "up 1".toList ∉ metricLines halfOps (upMetric "x\nup 1".toList) := by
  decide +kernel

end ShareCli.Gateway.Prometheus
