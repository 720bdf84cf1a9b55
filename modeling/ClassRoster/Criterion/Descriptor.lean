import ClassRoster.Criterion.Basic
import ClassRoster.Descriptor
import ClassRoster.Package

/-!
The ready-made criteria on class descriptors: by name, by simple name, by package. Each quotes
its argument in its phrase; the one for a marker names the class by its simple name only and
still compares the whole name, by tokens.
-/

namespace ClassRoster
namespace Criterion

def ofMarker (m : Marker) : Criterion Descriptor :=
  ofTest ("have the name " ++ m.descriptor.simpleName) fun d => d.token == m.token

def haveName (name : String) : Criterion Descriptor :=
  ofTest ("have fully qualified name '" ++ name ++ "'") fun d => d.name == name

def haveSimpleName (name : String) : Criterion Descriptor :=
  ofTest ("have simple name '" ++ name ++ "'") fun d => d.simpleName == name

def resideIn (pattern : String) : Criterion Descriptor :=
  ofTest ("reside in a package '" ++ pattern ++ "'") fun d =>
    (PackagePattern.ofText pattern).accepts d.packageName

def resideInAny (patterns : List String) : Criterion Descriptor :=
  let listed := String.intercalate ", " (patterns.map fun p => "'" ++ p ++ "'")
  ofTest ("reside in any package [" ++ listed ++ "]") fun d =>
    patterns.any fun p => (PackagePattern.ofText p).accepts d.packageName

end Criterion
end ClassRoster
