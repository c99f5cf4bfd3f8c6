import WasmRedis.Errors
import WasmRedis.Foundation.BTree
import WasmRedis.Foundation.GoMap
import WasmRedis.Foundation.Strconv

/-!
# The index

An index holds four structures: the tree of the keys, the tree of the values,
the map from a key to its value, and the inverted map from a value to the keys
that hold it. A value is a text or a number, and a number is stored with the
text its float is formatted to, so that equal numbers are equal structures.

The package of the trees is a parameter. The engine has the one whose trees are
increasing lists.
-/

namespace WasmRedis

open GoString

/-- An indexed value. -/
structure Value (R : Type) where
  /-- The text, or the text the number is formatted to. -/
  text : GoString
  /-- Whether the value is a number. -/
  number : Bool
  /-- The number; `0` for a text. -/
  numeric : R
  deriving DecidableEq

/-- The index. -/
structure Index (R : Type) (T : Type → Type := BTree) where
  /-- The keys, in order. -/
  keys : T GoString
  /-- The values, in order. -/
  values : T (Value R)
  /-- The value of each key. -/
  entries : GoMap GoString (Value R)
  /-- The keys of each value. -/
  inverted : GoMap (Value R) (Finset GoString)

instance {R : Type} {T : Type → Type} [DecidableEq R] [DecidableEq (T GoString)]
    [DecidableEq (T (Value R))] : DecidableEq (Index R T) := fun a b =>
  decidable_of_iff (a.keys = b.keys ∧ a.values = b.values ∧ a.entries = b.entries
    ∧ a.inverted = b.inverted) (by cases a; cases b; simp)

/-- The order of the key tree. -/
def lessKey (a b : GoString) : Bool := decide (a < b)

variable {R : Type} [LinearOrder R] [Zero R] [Strconv R] {T : Type → Type} [OrderedTree T]

omit [Zero R] [Strconv R] in
/-- The order of the value tree: texts first, byte by byte, then numbers. -/
def less (a b : Value R) : Bool :=
  if a.number ≠ b.number then !a.number
  else if a.number then decide (a.numeric < b.numeric)
  else decide (a.text < b.text)

/-- The normalised value of a text, read as a number where the flag says so. -/
def scalar (text : GoString) (number : Bool) : Except Err (Value R) :=
  if number then
    match (Strconv.parseFloat text : Option (GoFloat R)) with
    | none => .error (.new (str "nombre fini requis"))
    | some n =>
      if n.isNaN || n.isInf then .error (.new (str "nombre fini requis"))
      else
        let n := if n.isZero then .finite 0 else n
        .ok { text := Strconv.formatFloat n, number := true, numeric := n.toNumber }
  else .ok { text := text, number := false, numeric := 0 }

namespace Index

omit [LinearOrder R] [Zero R] [Strconv R] in
/-- `index.New(degree)`. -/
def new (degree : ℤ) : Index R T :=
  let degree := if degree < 2 then 2 else degree
  { keys := OrderedTree.new degree, values := OrderedTree.new degree, entries := ∅,
    inverted := ∅ }

/-- `idx.Delete(key)`. -/
def delete (idx : Index R T) (key : GoString) : Index R T :=
  match idx.entries.lookup key with
  | none => idx
  | some item =>
    let entries := idx.entries.erase key
    let keys := OrderedTree.delete lessKey idx.keys key
    let held := ((idx.inverted.lookup item).getD ∅).erase key
    if held = ∅ then
      { keys := keys, values := OrderedTree.delete less idx.values item, entries := entries,
        inverted := idx.inverted.erase item }
    else
      { keys := keys, values := idx.values, entries := entries,
        inverted := idx.inverted.insert item held }

/-- `idx.Set(key, text, number)`. -/
def set (idx : Index R T) (key text : GoString) (number : Bool) : Except Err (Index R T) :=
  match scalar text number with
  | .error err => .error err
  | .ok item =>
    let idx := idx.delete key
    let entries := idx.entries.insert key item
    let keys := OrderedTree.replaceOrInsert lessKey idx.keys key
    match idx.inverted.lookup item with
    | none =>
      .ok { keys := keys, values := OrderedTree.replaceOrInsert less idx.values item,
            entries := entries, inverted := idx.inverted.insert item {key} }
    | some held =>
      .ok { keys := keys, values := idx.values, entries := entries,
            inverted := idx.inverted.insert item (insert key held) }

/-- The operators `Find` knows. -/
def operators : List GoString :=
  [str "equals", str "contains", str ">", str ">=", str "<", str "<="]

/-- The keys of an inverted set, in the order the loop visits them. -/
def holders (r : RangeOrder GoString) (idx : Index R T) (item : Value R) : List GoString :=
  match idx.inverted.lookup item with
  | none => []
  | some held => r.list held

/-- `idx.Find(field, operator, operand, number)`. -/
def find (r : RangeOrder GoString) (idx : Index R T) (field operator operand : GoString)
    (number : Bool) : Except Err (List GoString) :=
  if field ≠ str "key" ∧ field ≠ str "value" then
    .error (.new (str "champ attendu : key ou value"))
  else if operator ∉ operators then .error (.new (str "opérateur inconnu"))
  else
    let number := if field = str "key" then false else number
    match scalar (R := R) operand number with
    | .error err => .error err
    | .ok pivot =>
      let keys :=
        if operator = str "contains" then
          GoMap.rangeFold r idx.entries [] (fun keys key item =>
            if field = str "key" && contains key operand
                || field = str "value" && !item.number && contains item.text operand then
              keys ++ [key]
            else keys)
        else if field = str "key" then
          let visit := fun (keys : List GoString) key =>
            if operator = str ">" && key = operand || operator = str "<" && key = operand then
              (keys, true)
            else (keys ++ [key], true)
          if operator = str "equals" then
            match idx.entries.lookup operand with
            | none => []
            | some _ => [operand]
          else if operator = str ">" ∨ operator = str ">=" then
            OrderedTree.ascendGreaterOrEqual lessKey idx.keys operand visit []
          else OrderedTree.descendLessOrEqual lessKey idx.keys operand visit []
        else
          let visit := fun (keys : List GoString) (item : Value R) =>
            if item.number ≠ pivot.number then (keys, false)
            else if (operator = str ">" || operator = str "<") && item = pivot then (keys, true)
            else (keys ++ idx.holders r item, true)
          if operator = str "equals" then idx.holders r pivot
          else if operator = str ">" ∨ operator = str ">=" then
            OrderedTree.ascendGreaterOrEqual less idx.values pivot visit []
          else OrderedTree.descendLessOrEqual less idx.values pivot visit []
      .ok (sortStrings keys)

end Index

end WasmRedis
