import ShareCli.Foundation.Delimited
import ShareCli.Foundation.FloatText
import ShareCli.Foundation.Text

/-!
# Playlists (`crates/gateway/src/m3u_parser.rs`)

The scanner keeps what the last `#EXTINF` line said until the next line with a path.
-/

namespace ShareCli.Gateway.M3u

open Foundation Text List Option

/-- An entry of a playlist. -/
structure M3uEntry (F : Type) where
  durationSecs : Option F
  title : Option (List Char)
  uri : List Char
deriving DecidableEq

structure Scan (F : Type) where
  items : List (M3uEntry F) := []
  pending : Option (F × List Char) := none

def extm3u : List Char := ['#', 'E', 'X', 'T', 'M', '3', 'U']

def extinf : List Char := ['#', 'E', 'X', 'T', 'I', 'N', 'F', ':']

section

variable {F : Type} (format : FloatFormat F)

def readExtinf (rest : List Char) : F × List Char :=
  let durStr := rest.takeWhile (· ≠ ',')
  ((format.parse durStr).getD (format.ofInt (-1)), (rest.dropWhile (· ≠ ',')).drop 1)

def scanLine (scan : Scan F) (line : List Char) : Scan F :=
  if line.isEmpty then scan
  else if extm3u.isPrefixOf line then scan
  else if ['#', 'E', 'X', 'T', '-', 'X', '-'].isPrefixOf line ||
      ['#', 'E', 'X', 'T', '-', 'A', 'L', 'B', 'U', 'M', 'A', 'R', 'T'].isPrefixOf line then scan
  else if extinf.isPrefixOf line then
    { scan with pending := some (readExtinf format (line.drop extinf.length)) }
  else if ['#'].isPrefixOf line then scan
  else
    match scan.pending with
    | some (d, t) => { items := scan.items ++ [{ durationSecs := some d, title := some t, uri := line }] }
    | none => { items := scan.items ++ [{ durationSecs := none, title := none, uri := line }] }

def parse (text : List Char) : List (M3uEntry F) :=
  ((Text.lines text).foldl (fun scan raw => scanLine format scan (Text.trim raw)) {}).items

def entryLines (entry : M3uEntry F) : List (List Char) :=
  match entry.durationSecs, entry.title with
  | some d, some t => [extinf ++ (format.display d ++ ',' :: t), entry.uri]
  | some d, none => [extinf ++ format.display d, entry.uri]
  | none, _ => [entry.uri]

def render (entries : List (M3uEntry F)) : List Char :=
  terminated '\n' (extm3u :: entries.flatMap (entryLines format))

end

/-- No line feed in it and no blank at its end. -/
structure Clean (text : List Char) : Prop where
  newline : '\n' ∉ text
  last : ∀ c ∈ text.getLast?, Text.isWhitespace c = false

/-- A path, as a line that is not skipped. -/
structure IsUri (uri : List Char) : Prop extends Clean uri where
  ne_nil : uri ≠ []
  head : ∀ c ∈ uri.head?, Text.isWhitespace c = false ∧ c ≠ '#'

/-- A duration comes with a title. -/
structure Normal {F : Type} (entry : M3uEntry F) : Prop where
  uri : IsUri entry.uri
  extinf : (entry.durationSecs = none ∧ entry.title = none) ∨
    ∃ d t, entry.durationSecs = some d ∧ entry.title = some t ∧ Clean t

variable {F : Type} {format : FloatFormat F} {scan : Scan F} {entry : M3uEntry F} {text : List Char}

theorem Clean.of_suffix {ti : List Char} (h : Clean text) (hs : ti <:+ text) : Clean ti := by
  refine ⟨fun hm => h.newline (hs.subset hm), fun c hc => h.last c ?_⟩
  obtain ⟨front, rfl⟩ := hs
  rw [getLast?_append, mem_def.mp hc]
  rfl

theorem clean_trim {raw : List Char} (h : '\n' ∉ raw) : Clean (trim raw) :=
  ⟨fun hm => h (mem_of_mem_trim hm), fun _ hc => getLast?_trim hc⟩

/-- A clean line that does not begin with a blank is scanned as it is. -/
theorem Clean.trim_stripCr (h : Clean text) (hh : ∀ c ∈ text.head?, isWhitespace c = false) :
    trim (stripCr text) = text := by
  have hcr : text.getLast? ≠ some '\r' := fun hl => absurd (h.last _ hl) (by decide)
  rw [stripCr, if_neg hcr, trim_eq_self hh h.last]

theorem scanLine_uri (h : IsUri text) (scan : Scan F) : scanLine format scan text = { items := scan.items ++
        [{ durationSecs := scan.pending.map Prod.fst, title := scan.pending.map Prod.snd, uri := text }] } := by
  obtain ⟨c, rest, rfl⟩ := exists_cons_of_ne_nil h.ne_nil
  have hc : ('#' == c) = false := beq_false_of_ne (h.head c rfl).2.symm
  cases hp : scan.pending <;> simp [scanLine, extm3u, extinf, isPrefixOf, hc, hp]

theorem scanLine_extinf (scan : Scan F) (rs : List Char) :
    scanLine format scan (extinf ++ rs) = { scan with pending := some (readExtinf format rs) } := by
  simp [scanLine, extm3u, extinf, isPrefixOf]

theorem readExtinf_display (d : F) (ti : List Char) :
    readExtinf format (format.display d ++ ',' :: ti) = (d, ti) := by
  have hcm : ∀ c ∈ format.display d, decide (c ≠ ',') = true := by
    intro c hc
    exact decide_eq_true fun h => format.not_mem_display d (by decide) (h ▸ hc)
  rw [readExtinf, takeWhile_append_of_pos hcm, dropWhile_append_of_pos hcm]
  simp [format.parse_display]

structure ScanOk (scan : Scan F) : Prop where
  items : ∀ entry ∈ scan.items, Normal entry
  pending : ∀ p ∈ scan.pending, Clean p.2

theorem ScanOk.scanLine (h : ScanOk scan) (hcl : Clean text)
    (hh : ∀ c ∈ text.head?, isWhitespace c = false) : ScanOk (scanLine format scan text) := by
  by_cases hu : IsUri text
  · rw [scanLine_uri hu]
    refine ⟨forall_mem_append.mpr ⟨h.items, forall_mem_singleton.mpr ⟨hu, ?_⟩⟩, by simp⟩
    cases hp : scan.pending with
    | none => exact .inl ⟨rfl, rfl⟩
    | some p => exact .inr ⟨p.1, p.2, rfl, rfl, h.pending p hp⟩
  · unfold M3u.scanLine
    split_ifs with he hhd hd het hhs
    · exact h
    · exact h
    · exact h
    · refine ⟨h.items, ?_⟩
      rintro p ⟨rfl⟩
      exact hcl.of_suffix
        ((drop_suffix _ _).trans ((dropWhile_suffix _).trans (drop_suffix _ _)))
    · exact h
    · -- a line that is not skipped is a path
      refine absurd ⟨hcl, by simpa using he, fun c hc => ⟨hh c hc, ?_⟩⟩ hu
      rintro rfl
      obtain ⟨rs, rfl⟩ := head?_eq_some_iff.mp hc
      exact hhs rfl

theorem normal_of_mem_parse (text : List Char) : ∀ entry ∈ parse format text, Normal entry := by
  have hs : ∀ rws : List (List Char), (∀ raw ∈ rws, '\n' ∉ raw) → ∀ scan : Scan F, ScanOk scan →
      ScanOk (rws.foldl (fun scan raw => scanLine format scan (trim raw)) scan) := by
    intro rws hr
    induction rws with
    | nil => exact fun scan h => h
    | cons raw rws ih =>
      obtain ⟨hrw, hr⟩ := forall_mem_cons.mp hr
      exact fun scan h => ih hr _ (h.scanLine (clean_trim hrw) fun c hc => head?_trim hc)
  exact (hs _ (fun raw hrw => newline_not_mem_lines hrw) {} ⟨by simp, by simp⟩).items

theorem clean_extinf (d : F) {ti : List Char} (h : Clean ti) :
    Clean (extinf ++ (format.display d ++ ',' :: ti)) := by
  refine ⟨?_, fun c hc => ?_⟩
  · have hh : '\n' ∉ extinf := by decide
    have hd : '\n' ∉ format.display d := format.not_mem_display d (by decide)
    simp [hh, hd, h.newline]
  · rw [getLast?_append, getLast?_append, getLast?_cons, some_or, some_or] at hc
    cases hl : ti.getLast? with
    | none =>
      rw [hl] at hc
      obtain rfl := some.inj hc
      decide
    | some c' =>
      rw [hl] at hc
      obtain rfl := some.inj hc
      exact h.last _ hl

theorem entryLines_rows (h : Normal entry) : ∀ row ∈ entryLines format entry,
    '\n' ∉ row ∧ trim (stripCr row) = row := by
  have hu : '\n' ∉ entry.uri ∧ trim (stripCr entry.uri) = entry.uri :=
    ⟨h.uri.newline, h.uri.trim_stripCr fun c hc => (h.uri.head c hc).1⟩
  rcases h.extinf with ⟨hd, ht⟩ | ⟨d, title, hd, ht, htl⟩
  · simpa only [entryLines, hd, forall_mem_singleton] using hu
  · have hcl : Clean (extinf ++ (format.display d ++ ',' :: title)) := clean_extinf d htl
    have hh : ∀ c ∈ (extinf ++ (format.display d ++ ',' :: title)).head?, isWhitespace c = false := by
      rintro c ⟨rfl⟩
      decide
    rw [entryLines, hd, ht, forall_mem_cons, forall_mem_singleton]
    exact ⟨⟨hcl.newline, hcl.trim_stripCr hh⟩, hu⟩

theorem foldl_entryLines (h : Normal entry) (i : List (M3uEntry F)) :
    (entryLines format entry).foldl (scanLine format) { items := i } = { items := i ++ [entry] } := by
  obtain ⟨dr, title, uri⟩ := entry
  rcases h.extinf with ⟨rfl, rfl⟩ | ⟨d, title, rfl, rfl, -⟩
  · simp [entryLines, scanLine_uri h.uri]
  · simp [entryLines, scanLine_extinf, readExtinf_display, scanLine_uri h.uri]

theorem parse_render {es : List (M3uEntry F)} (h : ∀ entry ∈ es, Normal entry) :
    parse format (render format es) = es := by
  have hr : ∀ row ∈ es.flatMap (entryLines format), '\n' ∉ row ∧ trim (stripCr row) = row := by
    intro row hrw
    obtain ⟨entry, he, hrw⟩ := mem_flatMap.mp hrw
    exact entryLines_rows (h entry he) row hrw
  have hs : ∀ i, (es.flatMap (entryLines format)).foldl (scanLine format) { items := i } =
      { items := i ++ es } := by
    clear hr
    induction es with
    | nil => simp
    | cons entry es ih =>
      obtain ⟨he, hen⟩ := forall_mem_cons.mp h
      intro i
      rw [flatMap_cons, foldl_append, foldl_entryLines he, ih hen, append_assoc]
      rfl
  have hn : ∀ row ∈ extm3u :: es.flatMap (entryLines format), '\n' ∉ row :=
    forall_mem_cons.mpr ⟨by decide, fun row hrw => (hr row hrw).1⟩
  have hl := lines_terminated_append hn []
  rw [append_nil, lines_nil, append_nil] at hl
  have hhd : scanLine format {} (trim (stripCr extm3u)) = {} := rfl
  have hsm := foldl_ext (fun scan row => scanLine format scan (trim (stripCr row)))
    (scanLine format) {} fun scan row hrw => congrArg (scanLine format scan) (hr row hrw).2
  rw [parse, render, hl, foldl_map, foldl_cons, hhd, hsm, hs, nil_append]

/-- The entries of a text are found again when they are rendered. -/
theorem parse_render_parse (format : FloatFormat F) (text : List Char) :
    parse format (render format (parse format text)) = parse format text :=
  parse_render (normal_of_mem_parse text)

end ShareCli.Gateway.M3u
