import ClassRoster.Text.Split
import ClassRoster.Text.Dump

/-!
Class descriptors and the tokens that stand for them. A class is known by its fully qualified
name alone: equality and order are those of the names, by code point. The parts of a name come
from two cuts, at the last dot and then at the last dollar sign of what is left.
-/

namespace ClassRoster

structure Descriptor where
  name : String
deriving DecidableEq, Repr

/-- A handle for one class, compared by name. -/
structure Token where
  name : String
deriving DecidableEq, Repr

/-- A type of the host program that stands for a class and knows its path. -/
structure Marker where
  path : String
deriving DecidableEq, Repr

namespace Token

instance : Ord Token := ⟨fun a b => compare a.name b.name⟩

def byteSize (t : Token) : Nat := t.name.utf8ByteSize

def dump (t : Token) : String := Text.Dump.wrapped "ClassToken" (Text.quoted t.name)

end Token

namespace Descriptor

instance : Ord Descriptor := ⟨fun a b => compare a.name b.name⟩

def token (d : Descriptor) : Token := ⟨d.name⟩

/-- The name after its last dot; the whole name where there is none. -/
def localName (d : Descriptor) : List Char :=
  match Text.splitLast? '.' d.name.toList with
  | some (_, after) => after
  | none => d.name.toList

/-- The name before its last dot; empty for a class of the default package. -/
def packageName (d : Descriptor) : String :=
  match Text.splitLast? '.' d.name.toList with
  | some (before, _) => String.ofList before
  | none => ""

/-- The name without its package and without the classes around it. -/
def simpleName (d : Descriptor) : String :=
  match Text.splitLast? '$' d.localName with
  | some (_, after) => String.ofList after
  | none => String.ofList d.localName

/-- Whether the class is declared inside another one. -/
def isNested (d : Descriptor) : Bool := d.localName.contains '$'

def dump (d : Descriptor) : String :=
  Text.Dump.record "ClassDescriptor" [("name", Text.quoted d.name)]

def sort (ds : List Descriptor) : List Descriptor :=
  ds.mergeSort fun a b => (compare a b).isLE

theorem name_injective {a b : Descriptor} (h : a.name = b.name) : a = b := by
  cases a; cases b; exact congrArg mk h

theorem dot_notMem_localName (d : Descriptor) : '.' ∉ d.localName := by
  simp only [localName]
  split
  · next h => exact (Text.splitLast?_eq_some_iff.mp h).2
  · next h => exact Text.splitLast?_eq_none_iff.mp h

theorem localName_suffix (d : Descriptor) : d.localName <:+ d.name.toList := by
  simp only [localName]
  split
  · next before after h =>
      rw [(Text.splitLast?_eq_some_iff.mp h).1]
      exact (List.suffix_cons _ _).trans (List.suffix_append _ _)
  · exact List.suffix_rfl

theorem simpleName_suffix (d : Descriptor) : d.simpleName.toList <:+ d.name.toList := by
  refine List.IsSuffix.trans ?_ d.localName_suffix
  simp only [simpleName]
  split
  · next before after h =>
      rw [(Text.splitLast?_eq_some_iff.mp h).1, String.toList_ofList]
      exact (List.suffix_cons _ _).trans (List.suffix_append _ _)
  · simp only [String.toList_ofList, List.suffix_rfl]

theorem packageName_mk_append (package : String) {last : List Char} (h : '.' ∉ last) :
    (mk (package ++ "." ++ String.ofList last)).packageName = package := by
  have hcut : Text.splitLast? '.' (package ++ "." ++ String.ofList last).toList =
      some (package.toList, last) := by
    have hlist : (package ++ "." ++ String.ofList last).toList =
        package.toList ++ '.' :: last := by simp
    rw [hlist]; exact Text.splitLast?_append _ h
  simp only [packageName, hcut, String.ofList_toList]

end Descriptor

namespace Marker

def descriptor (m : Marker) : Descriptor := ⟨m.path⟩

def token (m : Marker) : Token := ⟨m.path⟩

theorem token_descriptor (m : Marker) : m.descriptor.token = m.token := rfl

end Marker

/-- Tokens are compared by name, whether they come from a descriptor or from a marker. -/
theorem Descriptor.token_eq_token_iff {d : Descriptor} {m : Marker} :
    d.token = m.token ↔ d.name = m.path := by
  simp [token, Marker.token]

end ClassRoster
