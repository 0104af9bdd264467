import EntityStore.Json.Token

/-!
Reading a document. A reader with fixed members looks at some parts of a document and passes over
the others; an outline says which part stands at the end of a path, if the reader looks there at
all. The open containers are kept on a stack, and each token either opens one, closes one or adds
to the innermost. Of the values that are wanted, all have to be representable, and at most 127
containers are open at once; of all others only the form counts.
-/
namespace EntityStore.Json

inductive Step where
  | item (index : Nat)
  | member (key : String)
deriving DecidableEq, Repr

structure Outline (Part : Type) where
  root : Part
  /-- The part under a key, if the reader of the part asks for it. -/
  member? : Part → String → Option Part
  item? : Part → Nat → Option Part

namespace Outline

variable {Part : Type}

/-- The part at the end of a path, which lists its last step first. -/
def part? (o : Outline Part) : List Step → Option Part
  | [] => some o.root
  | .item index :: outer => do o.item? (← o.part? outer) index
  | .member key :: outer => do o.member? (← o.part? outer) key

def wants (o : Outline Part) (path : List Step) : Bool :=
  (o.part? path).isSome

end Outline

inductive Frame where
  | items (done : List Json)
  | members (done : List (String × Json)) (key : String)

def Frame.step : Frame → Step
  | items done => .item done.length
  | members _ key => .member key

inductive Expect where
  | value
  | firstItem
  | firstKey (done : List (String × Json))
  | key (done : List (String × Json))
  | colon (done : List (String × Json)) (key : String)
  | nextItem (done : List Json)
  | nextMember (done : List (String × Json))
  | nothing (value : Json)

def maxDepth : Nat := 127

def finish (v : Json) : List Frame → Expect × List Frame
  | [] => (.nothing v, [])
  | .items done :: stack => (.nextItem (v :: done), stack)
  | .members done key :: stack => (.nextMember ((key, v) :: done), stack)

/-- What may come next inside the frames, where a wanted value could not stand. -/
def passOver (wanted : List Step → Bool) (stack : List Frame) (next : Expect × List Frame) :
    Option (Expect × List Frame) :=
  if wanted (stack.map Frame.step) then none else some next

/--
A container opens inside the frames. When as many are open as may be, no wanted one does, and more
of them are only ever open inside a value that is passed over.
-/
def enter (wanted : List Step → Bool) (e : Expect) (stack : List Frame) :
    Option (Expect × List Frame) :=
  match stack.drop (maxDepth - 1) with
  | [_] => passOver wanted stack (e, stack)
  | _ => some (e, stack)

def startValue (wanted : List Step → Bool) (stack : List Frame) :
    Token → Option (Expect × List Frame)
  | .null => some (finish .null stack)
  | .bool b => some (finish (.bool b) stack)
  | .num n => some (finish (.num n) stack)
  | .str s => some (finish (.str s) stack)
  | .hugeNumber => passOver wanted stack (finish .null stack)
  | .brokenString => passOver wanted stack (finish .null stack)
  | .openArray => enter wanted .firstItem stack
  | .openObject => enter wanted (.firstKey []) stack
  | _ => none

def startMember (wanted : List Step → Bool) (done : List (String × Json)) (stack : List Frame) :
    Token → Option (Expect × List Frame)
  | .str s => some (.colon done s, stack)
  | .brokenString => passOver wanted stack (.colon done "", stack)
  | _ => none

def step (wanted : List Step → Bool) :
    Expect → List Frame → Token → Option (Expect × List Frame)
  | .value, stack, t => startValue wanted stack t
  | .firstItem, stack, .closeArray => some (finish (.arr []) stack)
  | .firstItem, stack, t => startValue wanted (.items [] :: stack) t
  | .firstKey done, stack, .closeObject => some (finish (.obj done.reverse) stack)
  | .firstKey done, stack, t => startMember wanted done stack t
  | .key done, stack, t => startMember wanted done stack t
  | .colon done key, stack, .colon => some (.value, .members done key :: stack)
  | .nextItem done, stack, .comma => some (.value, .items done :: stack)
  | .nextItem done, stack, .closeArray => some (finish (.arr done.reverse) stack)
  | .nextMember done, stack, .comma => some (.key done, stack)
  | .nextMember done, stack, .closeObject => some (finish (.obj done.reverse) stack)
  | _, _, _ => none

def run (wanted : List Step → Bool) : Expect → List Frame → List Token → Option Json
  | .nothing v, [], [] => some v
  | _, _, [] => none
  | e, stack, t :: ts => do
    let (e, stack) ← step wanted e stack t
    run wanted e stack ts

/--
The value as written: members in the order of the text, and every one of them. What is not wanted
stands in it for its place only.
-/
def parseWanted? (wanted : List Step → Bool) (s : String) : Option Json := do
  run wanted .value [] (← tokens? s.toList)

def parseWritten? : String → Option Json :=
  parseWanted? fun _ => true

def parse? (s : String) : Option Json :=
  (parseWritten? s).map canonical

end EntityStore.Json
