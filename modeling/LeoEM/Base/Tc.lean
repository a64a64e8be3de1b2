/-
# `Base.Tc` — the traffic control of one interface, as `tc` changes it

A queueing discipline has a handle and, if it is classful, classes; a class may have a
discipline of its own below it.  So an interface has a tree of disciplines, or none but the
kernel's default.  `add` makes a node that is not there yet, `change` wants one that is there,
`replace` does either, and deleting the root deletes all below it.  A command that cannot be
obeyed leaves the tree as it is.  `replace` is the removal and addition that its manual says it
is; that the kernel may find the handle elsewhere in the tree is left out.

The kinds of disciplines `Q` and of classes `C` are left open (`Disciplines`).
-/

namespace Tc

mutual

/-- A queueing discipline with its classes. -/
inductive Qdisc (Q C : Type) where
  | mk (handle : Nat) (kind : Q) (classes : Classes Q C)

/-- The classes of a discipline: one without a discipline below it, or one with. -/
inductive Classes (Q C : Type) where
  | nil
  | leaf (minor : Nat) (params : C) (rest : Classes Q C)
  | inner (minor : Nat) (params : C) (child : Qdisc Q C) (rest : Classes Q C)

end

/-- What the disciplines are like. -/
class Disciplines (Q C : Type) where
  /-- The classes a discipline is made with. -/
  classes : Q → Classes Q C
  /-- A class can belong to a discipline. -/
  fits : Q → C → Bool
  /-- Two disciplines differ in their parameters only. -/
  sameKind : Q → Q → Bool

/-- The place of a discipline: the root of the interface, or below a class. -/
inductive Parent where
  | root
  | cls (major minor : Nat)
  deriving DecidableEq, Repr

inductive Cmd (Q C : Type) where
  | qdiscAdd (parent : Parent) (handle : Nat) (kind : Q)
  | qdiscReplace (parent : Parent) (handle : Nat) (kind : Q)
  | qdiscDelRoot
  | classAdd (parent : Nat) (minor : Nat) (params : C)
  | classChange (parent : Nat) (minor : Nat) (params : C)
  deriving DecidableEq, Repr

/-- The tree of an interface; `none` is the kernel's default discipline. -/
abbrev Tree (Q C : Type) := Option (Qdisc Q C)

variable {Q C : Type}

mutual

/-- Changes the classes of the discipline with handle `major`. -/
def Qdisc.modify (major : Nat) (f : Q → Classes Q C → Option (Classes Q C)) :
    Qdisc Q C → Option (Qdisc Q C)
  | .mk handle kind classes =>
      if handle = major then (f kind classes).map (.mk handle kind)
      else (classes.modify major f).map (.mk handle kind)

def Classes.modify (major : Nat) (f : Q → Classes Q C → Option (Classes Q C)) :
    Classes Q C → Option (Classes Q C)
  | .nil => none
  | .leaf minor params rest => (rest.modify major f).map (.leaf minor params)
  | .inner minor params child rest =>
      match child.modify major f with
      | some child => some (.inner minor params child rest)
      | none => (rest.modify major f).map (.inner minor params child)

end

/-- Adds a class behind the others. -/
def Classes.add (minor : Nat) (params : C) : Classes Q C → Option (Classes Q C)
  | .nil => some (.leaf minor params .nil)
  | .leaf m p rest => if m = minor then none else (rest.add minor params).map (.leaf m p)
  | .inner m p child rest =>
      if m = minor then none else (rest.add minor params).map (.inner m p child)

/-- Gives a class new parameters. -/
def Classes.change (minor : Nat) (params : C) : Classes Q C → Option (Classes Q C)
  | .nil => none
  | .leaf m p rest =>
      if m = minor then some (.leaf m params rest)
      else (rest.change minor params).map (.leaf m p)
  | .inner m p child rest =>
      if m = minor then some (.inner m params child rest)
      else (rest.change minor params).map (.inner m p child)

/-- Puts a discipline below a class, given what is there. -/
def Classes.put (minor : Nat) (f : Tree Q C → Option (Qdisc Q C)) :
    Classes Q C → Option (Classes Q C)
  | .nil => none
  | .leaf m p rest =>
      if m = minor then (f none).map (.inner m p · rest)
      else (rest.put minor f).map (.leaf m p)
  | .inner m p child rest =>
      if m = minor then (f (some child)).map (.inner m p · rest)
      else (rest.put minor f).map (.inner m p child)

/-- Puts a discipline at its place, given what is there. -/
def Tree.put (parent : Parent) (f : Tree Q C → Option (Qdisc Q C)) (t : Tree Q C) :
    Option (Tree Q C) :=
  match parent, t with
  | .root, t => (f t).map some
  | .cls _ _, none => none
  | .cls major minor, some q => (q.modify major fun _ classes => classes.put minor f).map some

/-- Changes the classes of the discipline with handle `major`. -/
def Tree.modify (major : Nat) (f : Q → Classes Q C → Option (Classes Q C)) :
    Tree Q C → Option (Tree Q C)
  | none => none
  | some q => (q.modify major f).map some

variable [Disciplines Q C]

/-- `add`: only where no discipline is. -/
def putNew (handle : Nat) (kind : Q) : Tree Q C → Option (Qdisc Q C)
  | none => some (.mk handle kind (Disciplines.classes kind))
  | some _ => none

/-- `replace`: a discipline of the same handle gets the parameters, and is not made one of
another kind; one of another handle is removed with all below it. -/
def putOver (handle : Nat) (kind : Q) : Tree Q C → Option (Qdisc Q C)
  | none => some (.mk handle kind (Disciplines.classes kind))
  | some (.mk h k classes) =>
      if h = handle then
        if Disciplines.sameKind C k kind then some (.mk handle kind classes) else none
      else some (.mk handle kind (Disciplines.classes kind))

/-- One command; `none` if `tc` reports an error. -/
def exec (t : Tree Q C) : Cmd Q C → Option (Tree Q C)
  | .qdiscAdd parent handle kind => t.put parent (putNew handle kind)
  | .qdiscReplace parent handle kind => t.put parent (putOver handle kind)
  | .qdiscDelRoot =>
      match t with
      | none => none
      | some _ => some none
  | .classAdd parent minor params =>
      t.modify parent fun kind classes =>
        if Disciplines.fits kind params then classes.add minor params else none
  | .classChange parent minor params =>
      t.modify parent fun kind classes =>
        if Disciplines.fits kind params then classes.change minor params else none

/-- One command after the other: the tree they leave, and which of them were obeyed. -/
def execAll (t : Tree Q C) : List (Cmd Q C) → Tree Q C × List Bool
  | [] => (t, [])
  | cmd :: cmds =>
      let done := exec t cmd
      let rest := execAll (done.getD t) cmds
      (rest.1, done.isSome :: rest.2)

/-- The later commands find the tree that the earlier ones leave. -/
theorem execAll_append (t : Tree Q C) (cmds cmds' : List (Cmd Q C)) :
    execAll t (cmds ++ cmds') =
      ((execAll (execAll t cmds).1 cmds').1,
        (execAll t cmds).2 ++ (execAll (execAll t cmds).1 cmds').2) := by
  induction cmds generalizing t with
  | nil => rfl
  | cons cmd cmds ih =>
      rw [List.cons_append, execAll, execAll, ih]
      rfl

/-- Deleting the root where there is one leaves the default. -/
theorem execAll_delRoot (t : Tree Q C) :
    execAll t (if t.isSome then [.qdiscDelRoot] else []) =
      (none, if t.isSome then [true] else []) := by
  cases t with
  | none => rfl
  | some q => rfl

end Tc
