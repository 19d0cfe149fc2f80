import ShareCli.Foundation.Bytes
import ShareCli.Foundation.Delimited

/-!
# PEM (`crates/gateway/src/pem_codec.rs`)

`decode` goes through the lines of its input once. It keeps the label of the last beginning, that of the last
end, and the text before the first end: a later block only sets the labels.
-/

namespace ShareCli.Gateway

open Foundation

/-- A labelled block. -/
structure PemBlock where
  label : String
  data : List UInt8
deriving DecidableEq

inductive PemError where
  | missingBeginMarker
  | missingEndMarker
  | labelMismatch (beginLabel endLabel : String)
  | badBase64
  | badAscii
deriving DecidableEq

namespace Pem

def beginMarker : List Char := "-----BEGIN ".toList

def endMarker : List Char := "-----END ".toList

def dashes : List Char := "-----".toList

def lineWidth : Nat := 64

def encodePem (label : String) (der : List UInt8) : List Char :=
  beginMarker ++ label.toList ++ dashes ++ ['\n'] ++
    terminated '\n' (chunksOf lineWidth (Base64.encodeBytes der)) ++
    (endMarker ++ label.toList ++ dashes ++ ['\n'])

structure Scan where
  beginLabel : Option String
  endLabel : Option String
  body : List Char
deriving DecidableEq

def Scan.start : Scan := { beginLabel := none, endLabel := none, body := [] }

def labelOf (rest : List Char) : Option String := (dashes.isSuffixOf? rest).map String.ofList

def Scan.line (s : Scan) (l : List Char) : Scan :=
  match beginMarker.isPrefixOf? l with
  | some rest =>
    match labelOf rest with
    | some label => { s with beginLabel := some label }
    | none => s
  | none =>
    match endMarker.isPrefixOf? l with
    | some rest =>
      match labelOf rest with
      | some label => { s with endLabel := some label }
      | none => s
    | none =>
      if s.beginLabel.isSome ∧ s.endLabel.isNone then { s with body := s.body ++ l } else s

def isAscii (input : List Char) : Bool := input.all fun c => c.toNat < 128

def Scan.finish (s : Scan) : Except PemError PemBlock :=
  match s.beginLabel with
  | none => .error .missingBeginMarker
  | some beginLabel =>
    match s.endLabel with
    | none => .error .missingEndMarker
    | some endLabel =>
      if beginLabel ≠ endLabel then .error (.labelMismatch beginLabel endLabel)
      else
        match Base64.decodeChars s.body with
        | none => .error .badBase64
        | some data => .ok { label := beginLabel, data }

def decode (input : List Char) : Except PemError PemBlock :=
  if isAscii input then ((Text.lines input).foldl Scan.line Scan.start).finish
  else .error .badAscii

end Pem

open Pem PemBlock Scan List

namespace PemBlock

variable (block : PemBlock)

def PlainLabel : Prop := ∀ c ∈ block.label.toList, c ≠ '\n' ∧ c.toNat < 128

def beginLine : List Char := beginMarker ++ block.label.toList ++ dashes

def endLine : List Char := endMarker ++ block.label.toList ++ dashes

def body : List (List Char) := chunksOf lineWidth (Base64.encodeBytes block.data)

def lines : List (List Char) := block.beginLine :: (block.body ++ [block.endLine])

def text : List Char := encodePem block.label block.data

theorem text_eq : block.text = terminated '\n' block.lines := by
  simp [text, encodePem, lines, terminated, beginLine, endLine, body]

theorem flatten_body : block.body.flatten = Base64.encodeBytes block.data := flatten_chunksOf (by decide) _

/-- The characters of base64 are ASCII; dashes, line feeds and carriage returns are not among them. -/
theorem alphabet_plain : ('=' :: Base64.alphabet).all
    (fun c => c ≠ '-' && c ≠ '\n' && c ≠ '\r' && decide (c.toNat < 128)) = true := by
  decide +kernel

variable {block} {l : List Char} {c : Char}

theorem of_mem_body (hl : l ∈ block.body) (hc : c ∈ l) : c ≠ '-' ∧ c ≠ '\n' ∧ c ≠ '\r' ∧ c.toNat < 128 := by
  have hm : c ∈ Base64.encodeBytes block.data := block.flatten_body ▸ mem_flatten.mpr ⟨l, hl, hc⟩
  have hp := all_eq_true.mp alphabet_plain c (mem_cons.mpr (Base64.mem_encodeBytes hm))
  simpa [and_assoc] using hp

theorem markers_plain : (beginMarker ++ endMarker ++ dashes).all
    (fun c => c ≠ '\n' && decide (c.toNat < 128)) = true := by
  decide +kernel

theorem of_mem_markers (hc : c ∈ beginMarker ∨ c ∈ endMarker ∨ c ∈ dashes) : c ≠ '\n' ∧ c.toNat < 128 := by
  have hp := all_eq_true.mp markers_plain c (by simpa [or_assoc] using hc)
  simpa using hp

theorem of_mem_lines (h : block.PlainLabel) (hl : l ∈ block.lines) (hc : c ∈ l) : c ≠ '\n' ∧ c.toNat < 128 := by
  simp only [lines, mem_cons, mem_append, not_mem_nil, or_false] at hl
  rcases hl with rfl | hl | rfl
  · simp only [beginLine, mem_append] at hc
    rcases hc with (hc | hc) | hc
    · exact of_mem_markers (.inl hc)
    · exact h c hc
    · exact of_mem_markers (.inr (.inr hc))
  · obtain ⟨-, hn, -, ha⟩ := of_mem_body hl hc
    exact ⟨hn, ha⟩
  · simp only [endLine, mem_append] at hc
    rcases hc with (hc | hc) | hc
    · exact of_mem_markers (.inr (.inl hc))
    · exact h c hc
    · exact of_mem_markers (.inr (.inr hc))

/-- A label may end in a carriage return, but its line ends in dashes. -/
theorem stripCr_of_mem_lines (hl : l ∈ block.lines) : Text.stripCr l = l := by
  simp only [lines, mem_cons, mem_append, not_mem_nil, or_false] at hl
  rcases hl with rfl | hl | rfl
  · simp [Text.stripCr, beginLine, dashes]
  · exact Text.stripCr_of_not_mem fun hcr => (of_mem_body hl hcr).2.2.1 rfl
  · simp [Text.stripCr, endLine, dashes]

end PemBlock

namespace Pem

theorem labelOf_append (l : String) : labelOf (l.toList ++ dashes) = some l := by
  have hs : dashes.isSuffixOf? (l.toList ++ dashes) = some l.toList :=
    isSuffixOf?_eq_some_iff_append_eq.mpr rfl
  rw [labelOf, hs, Option.map_some, String.ofList_toList]

variable (s : Scan)

theorem line_beginLine (block : PemBlock) :
    s.line block.beginLine = { s with beginLabel := some block.label } := by
  have hm : beginMarker.isPrefixOf? block.beginLine = some (block.label.toList ++ dashes) :=
    isPrefixOf?_eq_some_iff_append_eq.mpr (by simp [beginLine])
  simp only [line, hm, labelOf_append]

theorem line_endLine (block : PemBlock) : s.line block.endLine = { s with endLabel := some block.label } := by
  have ho : beginMarker.isPrefixOf? block.endLine = none := by
    rw [Option.eq_none_iff_forall_ne_some]
    intro rs hrest
    -- the markers differ in their sixth character
    have hs := congrArg (fun l => l[5]?) (isPrefixOf?_eq_some_iff_append_eq.mp hrest)
    simp only [endLine, append_assoc] at hs
    rw [getElem?_append_left (by decide), getElem?_append_left (by decide)] at hs
    exact absurd hs (by decide)
  have hm : endMarker.isPrefixOf? block.endLine = some (block.label.toList ++ dashes) :=
    isPrefixOf?_eq_some_iff_append_eq.mpr (by simp [endLine])
  simp only [line, ho, hm, labelOf_append]

theorem isPrefixOf?_of_not_mem {mk l : List Char} (hm : '-' ∈ mk) (hl : '-' ∉ l) :
    mk.isPrefixOf? l = none := by
  rw [Option.eq_none_iff_forall_ne_some]
  intro rs hrest
  obtain rfl := isPrefixOf?_eq_some_iff_append_eq.mp hrest
  exact hl (mem_append_left rs hm)

theorem line_of_not_mem {l : List Char} (hl : '-' ∉ l) : s.line l =
      if s.beginLabel.isSome ∧ s.endLabel.isNone then { s with body := s.body ++ l } else s := by
  have hb : beginMarker.isPrefixOf? l = none := isPrefixOf?_of_not_mem (by decide) hl
  have he : endMarker.isPrefixOf? l = none := isPrefixOf?_of_not_mem (by decide) hl
  simp only [line, hb, he]

variable {ls : List (List Char)}

theorem foldl_body_open (hls : ∀ l ∈ ls, '-' ∉ l) (hb : s.beginLabel.isSome) (he : s.endLabel = none) :
    ls.foldl line s = { s with body := s.body ++ ls.flatten } := by
  induction ls generalizing s with
  | nil => simp
  | cons l ls ih =>
    have hr : s.line l = { s with body := s.body ++ l } := by
      rw [line_of_not_mem s (hls l mem_cons_self), if_pos ⟨hb, by rw [he]; rfl⟩]
    have hrest := ih { s with body := s.body ++ l } (fun l' hl' => hls l' (mem_cons_of_mem l hl')) hb he
    rw [foldl_cons, hr, hrest]
    simp

theorem foldl_body_closed (hls : ∀ l ∈ ls, '-' ∉ l) (he : s.endLabel.isSome) : ls.foldl line s = s := by
  induction ls with
  | nil => rfl
  | cons l ls ih =>
    have hr : s.line l = s := by
      rw [line_of_not_mem s (hls l mem_cons_self), if_neg]
      rintro ⟨-, hn⟩
      rw [Option.isNone_iff_eq_none] at hn
      simp [hn] at he
    rw [foldl_cons, hr, ih fun l' hl' => hls l' (mem_cons_of_mem l hl')]

theorem dash_not_mem_body (block : PemBlock) : ∀ l ∈ block.body, '-' ∉ l :=
  fun _ hl hd => (of_mem_body hl hd).1 rfl

theorem foldl_first_block (block : PemBlock) : block.lines.foldl line start =
      { beginLabel := some block.label, endLabel := some block.label,
        body := Base64.encodeBytes block.data } := by
  rw [lines, foldl_cons, line_beginLine, foldl_append,
    foldl_body_open _ (dash_not_mem_body block) rfl rfl, block.flatten_body]
  exact line_endLine _ block

theorem foldl_later_block (block : PemBlock) (he : s.endLabel.isSome) : block.lines.foldl line s =
      { s with beginLabel := some block.label, endLabel := some block.label } := by
  have hb := foldl_body_closed { s with beginLabel := some block.label } (dash_not_mem_body block) he
  rw [lines, foldl_cons, line_beginLine, foldl_append, hb]
  exact line_endLine _ block

theorem foldl_later_blocks (first : PemBlock) (b : List Char) (rs : List PemBlock) :
    (rs.flatMap lines).foldl line
        { beginLabel := some first.label, endLabel := some first.label, body := b } =
      { beginLabel := some (rs.getLastD first).label, endLabel := some (rs.getLastD first).label,
        body := b } := by
  induction rs generalizing first with
  | nil => rfl
  | cons block rs ih =>
    rw [flatMap_cons, foldl_append, foldl_later_block _ block rfl, getLastD_cons]
    exact ih block

end Pem

def concatBlocks (blocks : List PemBlock) : List Char := blocks.flatMap text

theorem concatBlocks_eq (bls : List PemBlock) : concatBlocks bls = terminated '\n' (bls.flatMap lines) := by
  rw [concatBlocks, terminated, flatMap_assoc]
  exact congrArg (fun f => bls.flatMap f) (funext text_eq)

theorem isAscii_concatBlocks {bls : List PemBlock} (h : ∀ block ∈ bls, block.PlainLabel) :
    isAscii (concatBlocks bls) = true := by
  refine all_eq_true.mpr fun c hc => decide_eq_true ?_
  rw [concatBlocks_eq, terminated, mem_flatMap] at hc
  obtain ⟨l, hl, hc⟩ := hc
  obtain ⟨block, hb, hl⟩ := mem_flatMap.mp hl
  rcases mem_append.mp hc with hc | hc
  · exact (of_mem_lines (h block hb) hl hc).2
  · rw [mem_singleton.mp hc]
    decide

theorem lines_concatBlocks {bls : List PemBlock} (h : ∀ block ∈ bls, block.PlainLabel) :
    Text.lines (concatBlocks bls) = bls.flatMap lines := by
  have hn : ∀ l ∈ bls.flatMap lines, '\n' ∉ l := by
    intro l hl hm
    obtain ⟨block, hb, hl⟩ := mem_flatMap.mp hl
    exact (of_mem_lines (h block hb) hl hm).1 rfl
  have hln := Text.lines_terminated_append hn []
  rw [append_nil, Text.lines_nil, append_nil] at hln
  rw [concatBlocks_eq, hln]
  refine (map_congr_left fun l hl => ?_).trans (map_id _)
  obtain ⟨block, -, hl⟩ := mem_flatMap.mp hl
  exact stripCr_of_mem_lines hl

/-- Of several blocks the data of the first are decoded, under the label of the last. -/
theorem decode_blocks {first : PemBlock} {rs : List PemBlock} (h : ∀ block ∈ first :: rs, block.PlainLabel) :
    decode (concatBlocks (first :: rs)) = .ok { label := (rs.getLastD first).label, data := first.data } := by
  rw [decode, if_pos (isAscii_concatBlocks h), lines_concatBlocks h, flatMap_cons, foldl_append,
    foldl_first_block, foldl_later_blocks]
  simp [finish, Base64.decodeChars_encodeBytes]

/-- **The first block** is decoded from its text and the texts of any blocks that follow, exactly if the last block
has its label. -/
theorem decode_first_block_iff (first : PemBlock) (rest : List PemBlock)
    (h : ∀ block ∈ first :: rest, block.PlainLabel) :
    decode (concatBlocks (first :: rest)) = .ok first ↔ (rest.getLastD first).label = first.label := by
  rw [decode_blocks h]
  constructor
  · intro heq
    exact (PemBlock.mk.inj (Except.ok.inj heq)).1
  · intro hl
    rw [hl]

theorem decode_first_of_two_keys :
    decode (concatBlocks [⟨"KEY", [1, 2, 3]⟩, ⟨"KEY", [4]⟩]) = .ok ⟨"KEY", [1, 2, 3]⟩ :=
  (decode_first_block_iff ⟨"KEY", [1, 2, 3]⟩ [⟨"KEY", [4]⟩] (by simp [PlainLabel])).mpr rfl

/-- A certificate followed by a key is decoded as a key with the data of the certificate. -/
theorem decode_labels_first_as_last :
    decode (concatBlocks [⟨"CERTIFICATE", [1, 2, 3]⟩, ⟨"KEY", [4]⟩]) = .ok ⟨"KEY", [1, 2, 3]⟩ := by
  decide +kernel

end ShareCli.Gateway
