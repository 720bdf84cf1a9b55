import ClassRoster.Descriptor

/-!
A vocabulary for tests given from outside. A rule speaks about one of three subjects, a class,
a text or a number; each has a few named tests, and named projections lead from one subject to
another. Numbers are unbounded here: a bound on them is a matter of what is read.
-/

namespace ClassRoster

inductive Subject where
  | descriptor
  | text
  | number
deriving DecidableEq, Repr

def Subject.Carrier : Subject → Type
  | .descriptor => Descriptor
  | .text => String
  | .number => Int

inductive TextTest where
  | always (answer : Bool)
  | equals (other : String)
  | startsWith (lead : String)
  | endsWith (tail : String)
  | contains (part : String)
  | byteSizeMod (modulus remainder : Nat)
deriving Repr

namespace TextTest

/-- Whether `part` stands somewhere in `text`. -/
def occursIn (part : List Char) : List Char → Bool
  | [] => part.isEmpty
  | c :: text => part.isPrefixOf (c :: text) || occursIn part text

def holds : TextTest → String → Bool
  | always answer, _ => answer
  | equals other, s => s == other
  | startsWith lead, s => lead.toList.isPrefixOf s.toList
  | endsWith tail, s => tail.toList.isSuffixOf s.toList
  | contains part, s => occursIn part.toList s.toList
  | byteSizeMod modulus remainder, s => s.utf8ByteSize % modulus == remainder

end TextTest

/-- The part of a class that a text test looks at. -/
inductive NamePart where
  | name
  | simpleName
  | packageName
deriving DecidableEq, Repr

def NamePart.read : NamePart → Descriptor → String
  | .name, d => d.name
  | .simpleName, d => d.simpleName
  | .packageName, d => d.packageName

inductive DescriptorTest where
  | nested
  | onPart (part : NamePart) (test : TextTest)
deriving Repr

def DescriptorTest.holds : DescriptorTest → Descriptor → Bool
  | .nested, d => d.isNested
  | .onPart part test, d => test.holds (part.read d)

inductive NumberTest where
  | always (answer : Bool)
  | even
  | equals (other : Int)
  | above (bound : Int)
  | below (bound : Int)
deriving Repr

def NumberTest.holds : NumberTest → Int → Bool
  | .always answer, _ => answer
  | .even, n => n % 2 == 0
  | .equals other, n => n == other
  | .above bound, n => decide (n > bound)
  | .below bound, n => decide (n < bound)

/-- The named ways to see one subject as another. -/
inductive Projection : Subject → Subject → Type where
  | part (p : NamePart) : Projection .descriptor .text
  | nameSize : Projection .descriptor .number
  | package : Projection .descriptor .descriptor
  | size : Projection .text .number
  | named : Projection .text .descriptor
  | decimal : Projection .number .text

def Projection.apply {s t : Subject} : Projection s t → s.Carrier → t.Carrier
  | .part p => p.read
  | .nameSize => fun d : Descriptor => (d.name.utf8ByteSize : Int)
  | .package => fun d : Descriptor => Descriptor.mk d.packageName
  | .size => fun text : String => (text.utf8ByteSize : Int)
  | .named => Descriptor.mk
  | .decimal => fun n : Int => toString n

end ClassRoster
