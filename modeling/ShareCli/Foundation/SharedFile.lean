import Mathlib.Data.List.Induction
import ShareCli.Foundation.Machine

/-!
# A file that is read, changed and written back

Any number of calls work on one file without a lock. A call reads the file, empties it and writes it. If a call
empties the file only while it is as the call has read it, and writes only into a file that is still empty, then
the calls take effect one after the other (`serial`).
-/

namespace ShareCli.Foundation

open Option List

structure FileFormat (τ : Type*) where
  encode : τ → List UInt8
  decode : Option (List UInt8) → Option τ
  decode_encode : ∀ t, decode (some (encode t)) = some t
  decode_empty : decode (some []) = none

inductive RewritePhase where
  | read
  | emptied
  | written
deriving DecidableEq

structure Rewrite (τ ο : Type*) where
  op : ο
  seen : Option (List UInt8)
  next : τ
  phase : RewritePhase

structure SharedFile (τ ο : Type*) where
  file : Option (List UInt8)
  calls : List (Rewrite τ ο)
  history : List ο

inductive RewriteLabel (ο : Type*) where
  | start (op : ο)
  | empty (index : Nat)
  | write (index : Nat)

namespace SharedFile

variable {τ ο : Type*}

def writeOver (bytes old : List UInt8) : List UInt8 := bytes ++ old.drop bytes.length

section Machine

variable (format : FileFormat τ) (apply : ο → τ → Option τ)

/-- A call that cannot read the file or whose operation is refused returns at once. -/
def start (s : SharedFile τ ο) (op : ο) : SharedFile τ ο :=
  match (format.decode s.file).bind (apply op) with
  | none => s
  | some next => { s with calls := s.calls ++ [{ op, seen := s.file, next, phase := .read }] }

def empty (s : SharedFile τ ο) (index : Nat) (call : Rewrite τ ο) : SharedFile τ ο :=
  { s with file := some [], calls := s.calls.set index { call with phase := .emptied } }

def write (s : SharedFile τ ο) (index : Nat) (call : Rewrite τ ο) : SharedFile τ ο where
  file := some (writeOver (format.encode call.next) (s.file.getD []))
  calls := s.calls.set index { call with phase := .written }
  history := s.history ++ [call.op]

def callIn (s : SharedFile τ ο) (phase : RewritePhase) (index : Nat) : Option (Rewrite τ ο) :=
  (s.calls[index]? : Option (Rewrite τ ο)).filter fun call => call.phase = phase

def machine (initial : Option (List UInt8)) : Machine (SharedFile τ ο) (RewriteLabel ο) where
  init := { file := initial, calls := [], history := [] }
  step
    | s, .start op => some (s.start format apply op)
    | s, .empty index => (s.callIn .read index).map (s.empty index)
    | s, .write index => (s.callIn .emptied index).map (s.write format index)

end Machine

/-- The file is as the call has read it when the call empties it, and still empty when the call writes. -/
def Undisturbed (s : SharedFile τ ο) : RewriteLabel ο → Prop
  | .start _ => True
  | .empty index => ∀ call ∈ s.callIn .read index, s.file = call.seen
  | .write _ => s.file = some []

instance : ∀ (s : SharedFile τ ο) (l : RewriteLabel ο), Decidable (s.Undisturbed l)
  | _, .start _ => isTrue trivial
  | s, .empty index => inferInstanceAs (Decidable (∀ call ∈ s.callIn .read index, s.file = call.seen))
  | s, .write _ => inferInstanceAs (Decidable (s.file = some []))

section Serial

variable (format : FileFormat τ) (apply : ο → τ → Option τ)

def replay (table : Option τ) (ops : List ο) : Option τ := ops.foldl (fun t op => t.bind (apply op)) table

theorem replay_concat (tb : Option τ) (ops : List ο) (op : ο) :
    replay apply tb (ops ++ [op]) = (replay apply tb ops).bind (apply op) := by
  rw [replay, foldl_append]
  rfl

/-- One call has emptied the file and is about to write what its operation makes of the table. -/
structure Rewriting (s : SharedFile τ ο) (table : Option τ) (index : Nat) (call : Rewrite τ ο) : Prop where
  file : s.file = some []
  here : s.calls[index]? = some call
  emptied : call.phase = .emptied
  next : table.bind (apply call.op) = some call.next
  only : ∀ (j : Nat) other, s.calls[j]? = some other → other.phase = .emptied → j = index

inductive Has (s : SharedFile τ ο) (table : Option τ) : Prop where
  | settled (hfile : format.decode s.file = table) (hcalls : ∀ call ∈ s.calls, call.phase ≠ .emptied)
  | rewriting (index : Nat) (call : Rewrite τ ο) (h : Rewriting apply s table index call)

structure Serial (initial : Option (List UInt8)) (s : SharedFile τ ο) : Prop where
  next : ∀ call ∈ s.calls, (format.decode call.seen).bind (apply call.op) = some call.next
  has : Has format apply s (replay apply (format.decode initial) s.history)
  defined : s.history = [] ∨ replay apply (format.decode initial) s.history ≠ none

variable {format apply} {initial : Option (List UInt8)} {s : SharedFile τ ο} {index : Nat} {call : Rewrite τ ο}

theorem callIn_eq_some {phase : RewritePhase} (h : s.callIn phase index = some call) :
    s.calls[index]? = some call ∧ call.phase = phase := by
  obtain ⟨hg, hp⟩ := filter_eq_some_iff.mp h
  exact ⟨hg, by simpa using hp⟩

theorem Serial.start (h : Serial format apply initial s) (op : ο) :
    Serial format apply initial (s.start format apply op) := by
  unfold SharedFile.start
  cases hnext : (format.decode s.file).bind (apply op) with
  | none => exact h
  | some next =>
    refine ⟨?_, ?_, h.defined⟩
    · intro call hc
      rcases mem_append.mp hc with hc | hc
      · exact h.next call hc
      · obtain rfl := mem_singleton.mp hc
        exact hnext
    · rcases h.has with ⟨hf, hcl⟩ | ⟨index, call, hr⟩
      · refine .settled hf ?_
        intro call hc
        rcases mem_append.mp hc with hc | hc
        · exact hcl call hc
        · obtain rfl := mem_singleton.mp hc
          intro hp
          cases hp
      · -- an empty file cannot be read
        rw [hr.file, format.decode_empty] at hnext
        cases hnext

theorem Serial.empty (h : Serial format apply initial s) (hc : s.callIn .read index = some call)
    (hs : s.file = call.seen) :
    Serial format apply initial (s.empty index call) := by
  obtain ⟨hg, hp⟩ := callIn_eq_some hc
  have hm : call ∈ s.calls := mem_of_getElem? hg
  have hnext := h.next call hm
  have hlt : index < s.calls.length := (List.getElem?_eq_some_iff.mp hg).1
  refine ⟨?_, ?_, h.defined⟩
  · intro other ho
    rcases mem_or_eq_of_mem_set ho with ho | rfl
    · exact h.next other ho
    · exact hnext
  · rcases h.has with ⟨hf, hcl⟩ | ⟨j, other, hr⟩
    · refine .rewriting index { call with phase := .emptied } ⟨rfl, ?_, rfl, ?_, ?_⟩
      · exact getElem?_set_self hlt
      · show (replay apply (format.decode initial) s.history).bind (apply call.op) = some call.next
        rw [← hf, hs]
        exact hnext
      · intro j other ho he
        rcases getElem?_set_cases ho with ⟨rfl, -⟩ | ⟨-, hold⟩
        · rfl
        · exact absurd he (hcl other (mem_of_getElem? hold))
    · -- the call has read a file that is not empty
      rw [← hs, hr.file, format.decode_empty] at hnext
      cases hnext

theorem Serial.write (h : Serial format apply initial s) (hc : s.callIn .emptied index = some call)
    (hf : s.file = some []) :
    Serial format apply initial (s.write format index call) := by
  obtain ⟨hg, hp⟩ := callIn_eq_some hc
  have hm : call ∈ s.calls := mem_of_getElem? hg
  rcases h.has with ⟨-, hcl⟩ | ⟨j, other, hr⟩
  · exact absurd hp (hcl call hm)
  obtain rfl : index = j := hr.only index call hg hp
  obtain rfl : call = other := some_inj.mp (hg.symm.trans hr.here)
  have hrp : replay apply (format.decode initial) (s.history ++ [call.op]) = some call.next := by
    rw [replay_concat]
    exact hr.next
  refine ⟨?_, .settled ?_ ?_, .inr ?_⟩
  · intro other ho
    rcases mem_or_eq_of_mem_set ho with ho | rfl
    · exact h.next other ho
    · exact h.next call hm
  · show format.decode (some (writeOver (format.encode call.next) (s.file.getD []))) = _
    rw [hf]
    simp only [writeOver, getD_some, drop_nil, append_nil, format.decode_encode]
    exact hrp.symm
  · intro other ho he
    obtain ⟨j, hj⟩ := getElem?_of_mem ho
    rcases getElem?_set_cases hj with ⟨-, rfl⟩ | ⟨hne, hold⟩
    · cases he
    · exact hne (hr.only j other hold he).symm
  · show replay apply (format.decode initial) (s.history ++ [call.op]) ≠ none
    rw [hrp]
    exact some_ne_none _

/-- **Serial runs.** Calls that nobody disturbs take effect one after the other. -/
theorem serial (h : (machine format apply initial).ReachableWhen Undisturbed s) :
    Serial format apply initial s := by
  refine Machine.invariantWhen ?_ ?_ h
  · refine ⟨?_, .settled rfl ?_, .inl rfl⟩
    · intro call hc
      cases hc
    · intro call hc
      cases hc
  · intro s l s' hs hu hstep
    cases l with
    | start op =>
      cases hstep
      exact hs.start op
    | empty index =>
      obtain ⟨call, hc, rfl⟩ := map_eq_some_iff.mp hstep
      exact hs.empty hc (hu call hc)
    | write index =>
      obtain ⟨call, hc, rfl⟩ := map_eq_some_iff.mp hstep
      exact hs.write hc hu

theorem Serial.invariant (h : Serial format apply initial s) {I : τ → List ο → Prop}
    (hi : ∀ t, format.decode initial = some t → I t [])
    (hstep : ∀ t ops op t', I t ops → apply op t = some t' → I t' (ops ++ [op])) :
    s.history = [] ∨ ∃ t, I t s.history := by
  rcases h.defined with hn | hs
  · exact .inl hn
  obtain ⟨t, ht⟩ := ne_none_iff_exists'.mp hs
  refine .inr ⟨t, ?_⟩
  generalize s.history = ops at ht
  induction ops using reverseRecOn generalizing t with
  | nil => exact hi t ht
  | append_singleton ops op ih =>
    rw [replay_concat] at ht
    obtain ⟨t₀, hb, ha⟩ := bind_eq_some_iff.mp ht
    exact hstep t₀ ops op t (ih t₀ hb) ha

end Serial

end SharedFile

end ShareCli.Foundation
