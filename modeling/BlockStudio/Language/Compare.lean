import BlockStudio.Language.Show

/-!
# Comparing values

Numbers of every kind are equal when their values are, blocks when they have the same definition
and equal values in their slots, and stacks only when they are one and the same. Lists compare by
length first and then item by item, where a block or stack always equals itself.

A value has a digest when it can be a key: equal keys have equal digests. The digest of a block
also takes in where it was last drawn.
-/

namespace BlockStudio

namespace Value

/-- The real and imaginary part of a value that is a number of any kind. -/
def parts? : Value → Option (Num × Num)
  | .num n => some (n, 0)
  | .bool b => some (.int (if b then 1 else 0), 0)
  | .complex re im => some (.float re, .float im)
  | _ => Option.none

/-- Equality of values that hold neither blocks nor lists. -/
def equalPlain (a b : Value) : Bool :=
  match a.parts?, b.parts? with
  | some (ar, ai), some (br, bi) => ar.eq br && ai.eq bi
  | _, _ =>
    match a, b with
    | .none, .none => true
    | .text s, .text t => s == t
    | .stack x, .stack y => x == y
    | _, _ => false

/-- Whether two values are known to be one and the same. -/
def identical (a b : Value) : Bool :=
  match a, b with
  | .block x, .block y => x == y
  | .stack x, .stack y => x == y
  | .num (.float x), .num (.float y) => x.toBits == y.toBits
  | _, _ => false

end Value

namespace Store

/-- Compare two lists of the same length item by item, up to the first difference. -/
def equalEach (equal : Value → Value → Except Fault Bool) :
    List Value → List Value → Except Fault Bool
  | a :: as, b :: bs => do
    if a.identical b then equalEach equal as bs
    else if ← equal a b then equalEach equal as bs
    else return false
  | _, _ => .ok true

/-- Compare two lists, by length first. -/
def equalItems (equal : Value → Value → Except Fault Bool) (as bs : List Value) :
    Except Fault Bool :=
  if as.length = bs.length then equalEach equal as bs else .ok false

/-- Whether two values are equal, looking `fuel` levels deep. A block cannot be compared with a
value that is neither a block nor missing. -/
def equalTo (s : Store) : Nat → Value → Value → Except Fault Bool
  | 0, _, _ => .ok false
  | fuel + 1, a, b =>
    match a, b with
    | .block x, .block y =>
      if (s.definitionOf x).same (s.definitionOf y) then
        equalItems (s.equalTo fuel) (s.block x).values (s.block y).values
      else .ok false
    | .block _, .none => .ok false
    | .none, .block _ => .ok false
    | .block _, v => .error (.noAttribute v.kindName "definition")
    | v, .block _ => .error (.noAttribute v.kindName "definition")
    | .list as, .list bs => equalItems (s.equalTo fuel) as bs
    | a, b => .ok (a.equalPlain b)

def listDepth : Value → Nat
  | .list items => 1 + deepest items
  | _ => 0
where
  /-- The greatest number of levels among values. -/
  deepest : List Value → Nat
    | [] => 0
    | v :: rest => max (listDepth v) (deepest rest)

def equal (s : Store) (a b : Value) : Except Fault Bool :=
  let lists := s.blocks.foldl (fun n b => max n (listDepth (.list b.values))) 0
  s.equalTo ((s.depth + 1) * (lists + 1) + listDepth a) a b

end Store

/-! ### Digests -/

/-- A piece of a digest. -/
inductive DigestPart where
  | none
  | number (residue : Int)
  | text (s : String)
  | origin (o : Origin)
  | place (r : Rect Rat)
  | count (n : Nat)
  deriving DecidableEq

/-- The prime by which numbers are reduced in digests. -/
def digestPrime : Nat := twoTo 61 - 1

/-- Put a sign on a residue; minus one is taken by faults, so it moves to minus two. -/
def signResidue (negative : Bool) (n : Nat) : Int :=
  let r : Int := if negative then -(n : Int) else n
  if r = -1 then -2 else r

/-- The residue of a number. Equal numbers have equal residues. -/
def Num.residue : Num → Int
  | .int n => signResidue (n < 0) (n.natAbs % digestPrime)
  | .float x =>
    match Binary.ofFloat? x with
    | some b =>
      signResidue b.negative (b.mantissa * twoTo (b.exponent % 61).toNat % digestPrime)
    | none => if x.isNaN then 0 else if signBit x then -314159 else 314159

namespace Store

/-- The digest of a value that holds no blocks and stacks, given those of blocks and stacks. -/
def digestWith (block : BlockId → Except Fault (List DigestPart))
    (stack : StackId → Except Fault (List DigestPart)) : Value → Except Fault (List DigestPart)
  | .none => .ok [.none]
  | .bool b => .ok [.number (if b then 1 else 0)]
  | .num n => .ok [.number n.residue]
  | .complex re im =>
    .ok [.number (Num.residue (.float re) + 1000003 * Num.residue (.float im))]
  | .text s => .ok [.text s]
  | .list _ => .error (.unhashable "list")
  | .block id => block id
  | .stack id => stack id

def digestAll (digest : Value → Except Fault (List DigestPart)) (values : List Value) :
    Except Fault (List DigestPart) := do
  return .count values.length :: (← values.mapM digest).flatten

mutual

/-- The digest of a block, looking `fuel` levels deep. -/
def digestBlock (s : Store) : Nat → BlockId → Except Fault (List DigestPart)
  | 0, _ => .ok []
  | fuel + 1, id => do
    let b := s.block id
    let values ← digestAll (digestWith (s.digestBlock fuel) (s.digestStack fuel)) b.values
    return .origin b.definition.origin :: values ++
      (.place (b.rect.map fun (n : Int) => (n : Rat)) :: .count b.slots.length ::
        b.slots.map DigestPart.place)

/-- The digest of a stack, looking `fuel` levels deep. -/
def digestStack (s : Store) : Nat → StackId → Except Fault (List DigestPart)
  | 0, _ => .ok []
  | fuel + 1, id => do
    let blocks ← (s.blocksOf id).mapM (s.digestBlock fuel)
    let position ←
      match (s.stack id).position with
      | none => pure [DigestPart.none]
      | some p => digestAll (digestWith (s.digestBlock fuel) (s.digestStack fuel)) p
    return .count blocks.length :: blocks.flatten ++ position

end

/-- The digest of a value; a list has none. -/
def digest (s : Store) (v : Value) : Except Fault (List DigestPart) :=
  digestWith (s.digestBlock s.depth) (s.digestStack s.depth) v

/-- Whether two keys are the same. Blocks are, when both their digests and they themselves are
equal. -/
def sameKey (s : Store) (a b : Value) : Bool :=
  match a, b with
  | .block x, .block y =>
    x == y ||
      match s.digest a, s.digest b with
      | .ok da, .ok db => da == db && (s.equal a b).toOption.getD false
      | _, _ => false
  | a, b => a.identical b || a.equalPlain b

end Store

end BlockStudio
