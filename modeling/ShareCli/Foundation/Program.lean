import ShareCli.Foundation.FileSystem

/-!
# Programs that make system calls

A program is a tree: the call it makes next, and how it goes on with each possible answer. It runs alone
(`exec`), or its calls are interleaved with those of other programs (`FsCall.respond`). The order in which a
directory is listed is not determined. `FsProgram.Yields` is what a program that runs alone establishes,
whatever the order.
-/

namespace ShareCli.Foundation

/-- The entries a directory stream yields one after the other, and the error it may end with. -/
structure Listing where
  entries : List DirEntry
  error : Option IoError
deriving DecidableEq

def Listing.isPlain (listing : Listing) : Bool := listing.entries.all fun entry => FilePath.isPlain entry.name

inductive FsCall (β : Type) : Type → Type where
  | readDir (directory : FilePath) : FsCall β Listing
  | read (path : JoinedPath) : FsCall β β
  | create (path : JoinedPath) : FsCall β Nat
  | write (inode : Nat) (contents : β) : FsCall β Unit
  | rename (source target : JoinedPath) : FsCall β Unit
  | remove (path : JoinedPath) : FsCall β Unit

/-- A program of file system calls. -/
inductive FsProgram (β α : Type) where
  | done (result : α)
  | call {γ : Type} (request : FsCall β γ) (next : Except IoError γ → FsProgram β α)

namespace FsProgram

variable {β α δ : Type}

def bind (program : FsProgram β α) (rest : α → FsProgram β δ) : FsProgram β δ :=
  match program with
  | .done result => rest result
  | .call request next => .call request fun answer => (next answer).bind rest

def writeFile (path : JoinedPath) (contents : β) (next : Except IoError Unit → FsProgram β α) :
    FsProgram β α :=
  .call (.create path) fun
    | .error e => next (.error e)
    | .ok inode => .call (.write inode contents) next

end FsProgram

inductive Choice where
  | regular
  | listing (listing : Listing)
  | fail
deriving DecidableEq

namespace FsCall

variable {β γ : Type} [FileContents β]

def perform (fs : FileSystem β) : FsCall β γ → Except IoError (γ × FileSystem β)
  | .readDir directory => (fs.readDir directory).map fun entries => (⟨entries, none⟩, fs)
  | .read path => (fs.read path).map fun contents => (contents, fs)
  | .create path => fs.create path
  | .write inode contents => .ok ((), fs.write inode contents)
  | .rename source target => (fs.rename source target).map fun fs' => ((), fs')
  | .remove path => (fs.remove path).map fun fs' => ((), fs')

/-- A failed call leaves the file system as it is. -/
def answer (fs : FileSystem β) (request : FsCall β γ) : Except IoError γ × FileSystem β :=
  match request.perform fs with
  | .ok (result, fs') => (.ok result, fs')
  | .error e => (.error e, fs)

def respond (fs : FileSystem β) (request : FsCall β γ) : Choice → Option (Except IoError γ × FileSystem β)
  | .regular => some (request.answer fs)
  | .fail => some (.error .other, fs)
  | .listing listing =>
    match request with
    | .readDir directory =>
      if fs.isDir directory ∧ listing.isPlain then some (.ok listing, fs) else none
    | _ => none

end FsCall

namespace FsProgram

variable {β α δ : Type} [FileContents β]

/-- No call fails but for a documented reason. The listings that are not needed are returned. -/
def exec : FsProgram β α → FileSystem β → List (List DirEntry) →
    Option (α × FileSystem β × List (List DirEntry))
  | .done result, fs, listings => some (result, fs, listings)
  | .call (.readDir directory) next, fs, listings =>
    match fs.readDir directory, listings with
    | .error e, listings => (next (.error e)).exec fs listings
    | .ok _, [] => none
    | .ok entries, listing :: listings =>
      if listing.isPerm entries then (next (.ok ⟨listing, none⟩)).exec fs listings else none
  | .call request next, fs, listings =>
    (next (request.answer fs).1).exec (request.answer fs).2 listings

end FsProgram

open FsCall

namespace FsCall

variable {β : Type} [FileContents β] {fs fs' : FileSystem β}

theorem answer_readDir {dir : FilePath} {es : List DirEntry} (h : fs.readDir dir = .ok es) :
    (readDir dir).answer fs = (.ok ⟨es, none⟩, fs) := by
  simp only [answer, perform, h, Except.map]

theorem answer_read (fs : FileSystem β) (p : JoinedPath) : (read p).answer fs = (fs.read p, fs) := by
  simp only [answer, perform]
  cases fs.read p <;> rfl

theorem answer_create {p : JoinedPath} {ino : Nat} (h : fs.create p = .ok (ino, fs')) :
    (create p).answer fs = (.ok ino, fs') := by
  simp only [answer, perform, h]

end FsCall

namespace FsProgram

variable {β α δ ε : Type}

theorem bind_assoc (prog : FsProgram β α) (f : α → FsProgram β δ) (g : δ → FsProgram β ε) :
    (prog.bind f).bind g = prog.bind fun a => (f a).bind g := by
  induction prog with
  | done r => rfl
  | call req next ih =>
    simp only [bind]
    congr 1
    funext answer
    exact ih answer

variable [FileContents β] {fs : FileSystem β} {dir : FilePath} {es : List DirEntry}

theorem exec_readDir_error {e : IoError} (hr : fs.readDir dir = .error e)
    (next : Except IoError Listing → FsProgram β α) (ls : List (List DirEntry)) :
    (call (.readDir dir) next).exec fs ls = (next (.error e)).exec fs ls := by
  conv_lhs => unfold exec
  simp only [hr]

theorem exec_readDir_nil (hr : fs.readDir dir = .ok es) (next : Except IoError Listing → FsProgram β α) :
    (call (.readDir dir) next).exec fs [] = none := by
  conv_lhs => unfold exec
  simp only [hr]

theorem exec_readDir_cons (hr : fs.readDir dir = .ok es)
    (next : Except IoError Listing → FsProgram β α) (l : List DirEntry) (ls : List (List DirEntry)) :
    (call (.readDir dir) next).exec fs (l :: ls) =
      if l.isPerm es then (next (.ok ⟨l, none⟩)).exec fs ls else none := by
  conv_lhs => unfold exec
  simp only [hr]

theorem exec_bind (prog : FsProgram β α) (rs : α → FsProgram β δ) (fs : FileSystem β)
    (ls : List (List DirEntry)) :
    (prog.bind rs).exec fs ls = (prog.exec fs ls).bind fun o => (rs o.1).exec o.2.1 o.2.2 := by
  induction prog generalizing fs ls with
  | done r => rfl
  | call req next ih =>
    cases req with
    | readDir dir =>
      simp only [bind]
      cases hr : fs.readDir dir with
      | error e =>
        rw [exec_readDir_error hr, exec_readDir_error hr]
        exact ih _ fs ls
      | ok es =>
        cases ls with
        | nil =>
          rw [exec_readDir_nil hr, exec_readDir_nil hr]
          rfl
        | cons l ls =>
          rw [exec_readDir_cons hr, exec_readDir_cons hr]
          by_cases hp : l.isPerm es
          · rw [if_pos hp, if_pos hp]
            exact ih _ fs ls
          · rw [if_neg hp, if_neg hp]
            rfl
    | _ => exact ih _ _ ls

theorem exists_exec (prog : FsProgram β α) (fs : FileSystem β) :
    ∃ ls result fs', prog.exec fs ls = some (result, fs', []) := by
  induction prog generalizing fs with
  | done result => exact ⟨[], result, fs, rfl⟩
  | call req next ih =>
    cases req with
    | readDir dir =>
      cases hr : fs.readDir dir with
      | error e =>
        obtain ⟨ls, result, fs', he⟩ := ih (.error e) fs
        exact ⟨ls, result, fs', (exec_readDir_error hr next ls).trans he⟩
      | ok es =>
        obtain ⟨ls, result, fs', he⟩ := ih (.ok ⟨es, none⟩) fs
        refine ⟨es :: ls, result, fs', ?_⟩
        have hp : es.isPerm es = true := List.isPerm_iff.mpr (List.Perm.refl es)
        rw [exec_readDir_cons hr, if_pos hp]
        exact he
    | _ =>
      obtain ⟨ls, result, fs', he⟩ := ih _ _
      exact ⟨ls, result, fs', he⟩

def Yields (program : FsProgram β α) (fs : FileSystem β) (post : α → FileSystem β → Prop) : Prop :=
  ∀ listings result fs' rest, program.exec fs listings = some (result, fs', rest) → post result fs'

variable {fs : FileSystem β} {post : α → FileSystem β → Prop}

theorem yields_done {r : α} (h : post r fs) : (done r).Yields fs post := by
  intro ls r' fs' rs he
  simp only [exec, Option.some.injEq, Prod.mk.injEq] at he
  obtain ⟨rfl, rfl, -⟩ := he
  exact h

theorem yields_bind {prog : FsProgram β δ} {rs : δ → FsProgram β α}
    (h : prog.Yields fs fun r fs' => (rs r).Yields fs' post) :
    (prog.bind rs).Yields fs post := by
  intro ls r fs' rm he
  rw [exec_bind] at he
  obtain ⟨⟨v, fs₁, listings₁⟩, hf, hrest⟩ := Option.bind_eq_some_iff.mp he
  exact h ls v fs₁ listings₁ hf listings₁ r fs' rm hrest

theorem Yields.mono {prog : FsProgram β α} {post' : α → FileSystem β → Prop}
    (h : prog.Yields fs post) (hi : ∀ r fs', post r fs' → post' r fs') :
    prog.Yields fs post' := by
  intro ls r fs' rs he
  exact hi r fs' (h ls r fs' rs he)

theorem yields_readDir {next : Except IoError Listing → FsProgram β α} (hr : fs.readDir dir = .ok es)
    (h : ∀ l : List DirEntry, l.Perm es → (next (.ok ⟨l, none⟩)).Yields fs post) :
    (call (.readDir dir) next).Yields fs post := by
  intro ls r fs' rs he
  cases ls with
  | nil =>
    rw [exec_readDir_nil hr] at he
    cases he
  | cons l ls =>
    rw [exec_readDir_cons hr, Option.ite_none_right_eq_some] at he
    obtain ⟨hp, he⟩ := he
    exact h l (List.isPerm_iff.mp hp) ls r fs' rs he

section Calls

variable {p src target : JoinedPath} {ino : Nat} {cs : β}

theorem yields_read {next : Except IoError β → FsProgram β α}
    (h : (next (fs.read p)).Yields fs post) : (call (.read p) next).Yields fs post := by
  intro ls r fs' rs he
  refine h ls r fs' rs ?_
  simp only [exec, answer_read] at he
  exact he

variable {fs' : FileSystem β} {next : Except IoError Unit → FsProgram β α} {answer : Except IoError Unit}

theorem yields_create {next : Except IoError Nat → FsProgram β α} (hc : fs.create p = .ok (ino, fs'))
    (h : (next (.ok ino)).Yields fs' post) :
    (call (.create p) next).Yields fs post := by
  intro ls r fs'' rs he
  refine h ls r fs'' rs ?_
  simp only [exec, answer_create hc] at he
  exact he

theorem yields_write (h : (next (.ok ())).Yields (fs.write ino cs) post) :
    (call (.write ino cs) next).Yields fs post :=
  h

theorem yields_rename (ha : (rename src target).answer fs = (answer, fs'))
    (h : (next answer).Yields fs' post) : (call (.rename src target) next).Yields fs post := by
  intro ls r fs'' rs he
  refine h ls r fs'' rs ?_
  simp only [exec, ha] at he
  exact he

theorem yields_remove (ha : (remove p).answer fs = (answer, fs'))
    (h : (next answer).Yields fs' post) : (call (.remove p) next).Yields fs post := by
  intro ls r fs'' rs he
  refine h ls r fs'' rs ?_
  simp only [exec, ha] at he
  exact he

end Calls

end FsProgram

end ShareCli.Foundation
