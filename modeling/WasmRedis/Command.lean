import WasmRedis.Errors
import WasmRedis.Foundation.Strconv

/-!
# Commands

`split` cuts an input into tokens, one rune at a time, and `parse` reads a
command off the tokens. A token remembers whether a part of it was quoted,
because an unquoted token that is a finite number is a number, and a quoted one
never is.
-/

namespace WasmRedis

open GoString

/-- `command.KindSet`. -/
def kindSet : GoString := str "SET"

/-- `command.KindGet`. -/
def kindGet : GoString := str "GET"

/-- `command.KindDelete`. -/
def kindDelete : GoString := str "DELETE"

/-- `command.KindPing`. -/
def kindPing : GoString := str "PING"

/-- `command.KindGetWhere`. -/
def kindGetWhere : GoString := str "GET_WHERE"

/-- A command. -/
structure Command where
  /-- One of the kinds above. -/
  kind : GoString
  /-- The key of a SET, a GET or a DELETE. -/
  key : GoString := []
  /-- The value of a SET. -/
  value : GoString := []
  /-- The duration of a SET, in nanoseconds; `0` where none is given. -/
  ttl : ℤ := 0
  /-- Whether the value of a SET is a number. -/
  isNumber : Bool := false
  /-- The field of a GET WHERE. -/
  field : GoString := []
  /-- The operator of a GET WHERE. -/
  operator : GoString := []
  /-- The operand of a GET WHERE. -/
  operand : GoString := []
  /-- Whether the operand of a GET WHERE is a number. -/
  operandIsNumber : Bool := false
  deriving DecidableEq

/-- A token. -/
structure Token where
  /-- The text, without the quotes. -/
  text : GoString
  /-- Whether a part of it was quoted. -/
  quoted : Bool
  deriving DecidableEq

/-! ## The scanner -/

/-- The variables of the scanning loop. -/
structure Scanner where
  /-- The tokens already cut. -/
  args : List Token := []
  /-- The text of the token under way. -/
  word : GoString := []
  /-- The quote that is open, if one is. -/
  quote : Option Char := none
  /-- Whether a token is under way. -/
  started : Bool := false
  /-- Whether a part of it was quoted. -/
  quoted : Bool := false
  deriving DecidableEq

/-- One turn of the scanning loop. -/
def Scanner.scan (s : Scanner) (char : Char) : Scanner :=
  match s.quote with
  | some quote =>
    if char = quote then { s with quote := none }
    else { s with word := s.word ++ runeBytes char }
  | none =>
    if char = '\x27' ∨ char = '\x22' then
      { s with quote := some char, quoted := true, started := true }
    else if char = ' ' ∨ char = '\t' ∨ char = '\r' ∨ char = '\n' then
      if s.started then
        { s with args := s.args ++ [⟨s.word, s.quoted⟩], word := [], started := false,
                 quoted := false }
      else s
    else { s with word := s.word ++ runeBytes char, started := true }

/-- `split(input)`. -/
def split (input : GoString) : Except Err (List Token) :=
  let s := (runes input).foldl Scanner.scan {}
  if s.quote ≠ none then .error (.new (str "guillemet non fermé"))
  else if s.started then .ok (s.args ++ [⟨s.word, s.quoted⟩])
  else .ok s.args

/-! ## The parser -/

/-- The cutset of a positive integer. -/
def digits : GoString := str "0123456789"

section Parse

variable (R : Type) [Strconv R]

/-- `numeric(value)`. -/
def numeric (value : Token) : Bool :=
  if value.quoted then false else Strconv.isFiniteNumber R value.text

/-- The part of `Parse` that reads a GET WHERE. -/
def parseGetWhere [TextLib] (args : List Token) : Except Err Command :=
  match args with
  | [_, _, field, operator, operand] =>
    let cmd : Command :=
      { kind := kindGetWhere, field := TextLib.toLower field.text,
        operator := TextLib.toLower operator.text, operand := operand.text,
        operandIsNumber :=
          TextLib.toLower field.text = str "value" && numeric R operand }
    if cmd.field ≠ str "key" ∧ cmd.field ≠ str "value" then
      .error (.new (str "champ attendu : key ou value"))
    else if cmd.operator ∉
        [str "equals", str "contains", str ">", str ">=", str "<", str "<="] then
      .error (.new (str "opérateur inconnu"))
    else .ok cmd
  | _ => .error (.detail .missingArgs (str "GET WHERE champ opérateur valeur"))

/-- The part of `Parse` that reads the expiration of a SET. -/
def parseExpiration [TextLib] (cmd : Command) (ex seconds : Token) : Except Err Command :=
  if TextLib.toUpper ex.text ≠ str "EX" ∨ trim seconds.text digits ≠ [] then
    .error (.new (str "expiration attendue : EX secondes (entier positif)"))
  else
    match TextLib.parseDuration (seconds.text ++ str "s") with
    | none => .error (.new (str "la durée EX doit être un entier positif représentable"))
    | some ttl =>
      if ttl ≤ 0 then
        .error (.new (str "la durée EX doit être un entier positif représentable"))
      else .ok { cmd with ttl := ttl }

/-- The part of `Parse` that reads a SET. -/
def parseSet [TextLib] (args : List Token) : Except Err Command :=
  match args with
  | [_, key, value] =>
    .ok { kind := kindSet, key := key.text, value := value.text, isNumber := numeric R value }
  | [_, key, value, ex, seconds] =>
    parseExpiration
      { kind := kindSet, key := key.text, value := value.text, isNumber := numeric R value }
      ex seconds
  | _ => .error (.detail .missingArgs (str "SET clé valeur [EX secondes]"))

/-- Whether the arguments of a GET make it a GET WHERE: there are more than two
and the second is `WHERE`, in any case. -/
def isGetWhere [TextLib] : List Token → Bool
  | _ :: second :: _ :: _ => TextLib.equalFold second.text (str "WHERE")
  | _ => false

/-- `Parse(input)`. -/
def parse [TextLib] (input : GoString) : Except Err Command :=
  match split input with
  | .error err => .error err
  | .ok [] => .error .empty
  | .ok (name :: rest) =>
    let args := name :: rest
    let kind := TextLib.toUpper name.text
    if kind = kindGet ∧ isGetWhere args then parseGetWhere R args
    else if kind = kindSet then parseSet R args
    else if kind = kindGet ∨ kind = kindDelete ∨ kind = str "DEL" then
      match args with
      | [_, key] =>
        .ok { kind := if kind = str "DEL" then kindDelete else kind, key := key.text }
      | _ => .error (.detail .missingArgs (kind ++ str " clé"))
    else if kind = kindPing then
      match args with
      | [_] => .ok { kind := kind }
      | _ => .error (.detail .missingArgs (str "PING"))
    else .error (.detail .unknown name.text)

end Parse

end WasmRedis
