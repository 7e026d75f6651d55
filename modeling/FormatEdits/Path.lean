import FormatEdits.FileTree

namespace FormatEdits.Path

variable {α : Type} [Letter α]

def slash : α := ofChar '/'

def here : Text α := [ofChar '.']

def up : Text α := [ofChar '.',ofChar '.']

@[simp] theorem up_ne_nil : (up : Text α) ≠ [] := by simp [up]

@[simp] theorem up_ne_here : (up : Text α) ≠ here := by simp [up,here]

variable [DecidableEq α]

def isAbsolute (path : Text α) : Bool := path.head? = some slash

@[simp] theorem isAbsolute_slash (r : Text α) : isAbsolute (slash :: r) = true :=
  decide_eq_true rfl

/-- Appends a path to another; an absolute one replaces it. -/
def join (base path : Text α) : Text α :=
  if isAbsolute path then path
  else if base = [] ∨ base.getLast? = some slash then base ++ path
  else base ++ slash :: path

/-- The slashes that a normal form starts with: two where a path has exactly two, else one where
it has any. -/
def rootOf (path : Text α) : Text α :=
  if path[0]? ≠ some slash then []
  else if path[1]? = some slash ∧ path[2]? ≠ some slash then [slash,slash]
  else [slash]

/-- Takes one more name into a stack of names, the last on top. Above a root there is nothing, so
names that lead up from it are dropped. -/
def pushName (rooted : Bool) (stack : List (Text α)) (name : Text α) : List (Text α) :=
  if name = [] ∨ name = here then stack
  else if name = up then
    match stack with
    | [] => if rooted then [] else [up]
    | top :: below => if top = up then up :: top :: below else below
  else name :: stack

def normalNames (rooted : Bool) (names : List (Text α)) : List (Text α) :=
  (names.foldl (pushName rooted) []).reverse

/-- The normal form of a path; a dot if nothing is left. -/
def normal (path : Text α) : Text α :=
  let root := rootOf path
  match root ++ Text.joined slash (normalNames (root ≠ []) (path.fields slash)) with
  | [] => here
  | form => form

/-- The text of a place. -/
def ofPlace (place : Place) : Text α := slash :: Text.joined slash (place.map Text.lift)

/-- The absolute normal form of a path, seen from a directory. -/
def absolute (directory : Place) (path : Text α) : Text α :=
  normal (if isAbsolute path then path else join (ofPlace directory) path)

section Homes

open Text.Utf8 (Bytes)

/-- A run of surrogates, by its place in a text, that no name of a file is written with. -/
structure Unwritable where
  start : Nat
  stop : Nat
  first : Surrogate
  deriving DecidableEq, Repr

/-- Why a name cannot be looked up. -/
inductive Fault
  | unwritable (run : Unwritable)
  | embeddedNull
  deriving DecidableEq, Repr

def Unwritable.message (u : Unwritable) : Text :=
  let found :=
    if u.stop = u.start + 1 then
      " '\\u".toList ++ Text.hexDigits 4 u.first.unit ++ "' in position ".toList ++
        Text.ofNat u.start
    else "s in position ".toList ++ Text.ofNat u.start ++ '-' :: Text.ofNat (u.stop - 1)
  "'utf-8' codec can't encode character".toList ++ found ++ ": surrogates not allowed".toList

def Fault.message : Fault → Text
  | .unwritable run => run.message
  | .embeddedNull => "embedded null byte".toList

def null : Char := Char.ofNat 0

/-- The byte that a surrogate stands for: file names that are no text are read with these. -/
def byteOf? (s : Surrogate) : Option UInt8 :=
  if 0xDC80 ≤ s.unit ∧ s.unit ≤ 0xDCFF then some (UInt8.ofNat (s.unit - 0xDC00)) else none

/-- A letter that a file's name cannot be written with. -/
def isUnwritable (c : α) : Bool := (surrogate? c).any fun s => (byteOf? s).isNone

/-- The first run that cannot be written, of a text behind so many letters. -/
def unwritableFrom (position : Nat) : Text α → Option Unwritable
  | [] => none
  | c :: r =>
    match surrogate? c with
    | some s =>
      if (byteOf? s).isSome then unwritableFrom (position + 1) r
      else
        let run := r.takeWhile fun d => (surrogate? d).isSome
        some ⟨position,position + 1 + run.length,s⟩
    | none => unwritableFrom (position + 1) r

/-- Why a name cannot be looked up that stands behind so many letters of a path. -/
def nameFault? (position : Nat) (name : Text α) : Option Fault :=
  match unwritableFrom position name with
  | some run => some (.unwritable run)
  | none => if ofChar null ∈ name then some .embeddedNull else none

def bytesOf (name : Text α) : Bytes :=
  name.flatMap fun c => match (surrogate? c).bind byteOf? with
    | some byte => [byte]
    | none => Text.Utf8.encodeChar (shown c)

/-- The name that files and users know. Theirs are all texts of characters; one with surrogates is
known where the bytes that these stand for are part of such a text. -/
def known? (name : Text α) : Option Text :=
  match name.chars? with
  | some name => some name
  | none => (Text.Utf8.decode (bytesOf name)).toOption

/-- A home directory in place of the tilde and the name after it. -/
def underHome (home rest : Text α) : Text α :=
  match Text.dropFinalWhile (· == slash) home ++ rest with
  | [] => [slash]
  | path => path

/-- A tilde alone stands for the user's own home, a tilde and a name for that user's; the name of
an unknown user is left as it is. -/
def expandHome (host : Host) (path : Text α) : Except Fault (Text α) :=
  if path.head? = some (ofChar '~') then
    let user := path.tail.takeWhile (· ≠ slash)
    let rest := path.tail.dropWhile (· ≠ slash)
    match nameFault? 0 user with
    | some fault => .error fault
    | none =>
      let home := if user = [] then host.valueOf? "HOME".toList
        else (known? user).bind fun user => List.lookup user host.homes
      .ok (match home with
        | some home => underHome (Text.lift home) rest
        | none => path)
  else .ok path

end Homes

/-- A path being walked: from the root, or from the current directory after going up so many
times. -/
structure Walked (α : Type := Char) where
  rooted : Bool := false
  ups : Nat := 0
  names : List (Text α) := []
  deriving DecidableEq, Repr

namespace Walked

def root : Walked α := ⟨true,0,[]⟩

def text (w : Walked α) : Text α :=
  (if w.rooted then [slash] else []) ++ Text.joined slash (List.replicate w.ups up ++ w.names)

def child (w : Walked α) (name : Text α) : Walked α := { w with names := w.names ++ [name] }

/-- One level up; above the root there is nothing. -/
def parent (w : Walked α) : Walked α :=
  if w.names ≠ [] then { w with names := w.names.dropLast }
  else if w.rooted then w
  else { w with ups := w.ups + 1 }

/-- Where the path is in a tree of files, if its names are known there. -/
def place? (directory : Place) (w : Walked α) : Option Place :=
  (w.names.mapM known?).map fun names =>
    (if w.rooted then [] else directory.take (directory.length - w.ups)) ++ names

def linkTarget? (host : Host) (w : Walked α) : Option (Text α) :=
  ((w.place? host.directory).bind host.files.linkTarget?).map Text.lift

end Walked

/-- The links met so far: those still being followed have no end yet. -/
abbrev Met (α : Type := Char) := List (Walked α × Option (Walked α))

/-- Why a walk ends early: at a link that leads back to itself, with the path to keep, or at a
name that cannot be looked up. -/
inductive Halt (α : Type := Char)
  | cycle (path : Text α)
  | refused (fault : Fault)

/-- What is left of a path is put behind the place where its walk ended. -/
def Halt.before (rest : List (Text α)) : Halt α → Halt α
  | .cycle path => .cycle (join path (Text.joined slash rest))
  | .refused fault => .refused fault

/-- Walks names; `enter` walks the target of a link. -/
def walk (host : Host)
    (enter : Walked α → Text α → Met α → Except (Halt α) (Walked α × Met α)) (w : Walked α)
    (met : Met α) : List (Text α) → Except (Halt α) (Walked α × Met α)
  | [] => .ok (w,met)
  | name :: rest =>
    if name = [] ∨ name = here then walk host enter w met rest
    else if name = up then walk host enter w.parent met rest
    else
      let next := w.child name
      match nameFault? (next.text.length - name.length) name with
      | some fault => .error (.refused fault)
      | none =>
        match next.linkTarget? host with
        | none => walk host enter next met rest
        | some target =>
          match met.lookup next with
          | some (some goal) => walk host enter goal met rest
          | some none => .error ((Halt.cycle next.text).before rest)
          | none =>
            match enter w target ((next,none) :: met) with
            | .ok (goal,met) => walk host enter goal ((next,some goal) :: met) rest
            | .error halt => .error (halt.before rest)

def start (path : Text α) (w : Walked α) : Walked α := if isAbsolute path then .root else w

def walkLinks (host : Host) :
    Nat → Walked α → Text α → Met α → Except (Halt α) (Walked α × Met α)
  | 0, w, target, _ => .error (.cycle (join w.text target))
  | depth + 1, w, target, met =>
    walk host (walkLinks host depth) (start target w) met (target.fields slash)

/-- Each link has a few ways to be named from the current directory, and none is entered twice at
once. -/
def linkDepth (host : Host) : Nat := host.files.linkCount * (host.directory.length + 2) + 1

/-- The absolute normal form of a path with its links replaced. -/
def resolved (host : Host) (path : Text α) : Except Fault (Text α) :=
  match walk host (walkLinks host (linkDepth host)) (start path {}) [] (path.fields slash) with
  | .ok (w,_) => .ok (absolute host.directory w.text)
  | .error (.cycle path) => .ok (absolute host.directory path)
  | .error (.refused fault) => .error fault

/-- The form in which paths are compared; a blank path has none and stays empty. -/
def normalForm (host : Host) (resolveLinks : Bool) (path : Text α) : Except Fault (Text α) :=
  match path.trim with
  | [] => .ok []
  | path => do
    let path ← expandHome host path
    if resolveLinks then resolved host path else return absolute host.directory path

/-- An empty path names no file. -/
def same (host : Host) (resolveLinks : Bool) (a b : Text α) : Except Fault Bool :=
  if a = [] ∨ b = [] then .ok false
  else do
    let a ← normalForm host resolveLinks a
    let b ← normalForm host resolveLinks b
    return a = b

end FormatEdits.Path
