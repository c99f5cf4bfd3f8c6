import WasmRedis.Foundation.GoString

/-!
# Errors

Every error the program returns, with its text. The ones that are package
variables (`ErrNotFound`, `ErrClosed`, …) are values of their own that callers
compare with; `detail` is such an error wrapped with a text by `fmt.Errorf`.
-/

namespace WasmRedis

open GoString

/-- The errors of the program. -/
inductive Err where
  /-- `engine.ErrNotFound`. -/
  | notFound
  /-- `engine.ErrClosed`. -/
  | closed
  /-- `engine.ErrInvalid`. -/
  | invalid
  /-- `engine.ErrConflict`. -/
  | conflict
  /-- `command.ErrEmpty`. -/
  | empty
  /-- `command.ErrUnknown`. -/
  | unknown
  /-- `command.ErrMissingArgs`. -/
  | missingArgs
  /-- An error made by `errors.New`. -/
  | new (text : GoString)
  /-- `fmt.Errorf("%w : …", err)`. -/
  | detail (err : Err) (text : GoString)
  /-- `fmt.Errorf("… : %w", err)`. -/
  | context (text : GoString) (err : Err)
  deriving DecidableEq

namespace Err

/-- The text of an error. -/
def text : Err → GoString
  | notFound => str "clé absente"
  | closed => str "moteur fermé"
  | invalid => str "données invalides"
  | conflict => str "opération impossible dans cet état"
  | empty => str "commande vide"
  | unknown => str "commande inconnue"
  | missingArgs => str "nombre d'arguments incorrect"
  | new text => text
  | detail err text => err.text ++ str " : " ++ text
  | context text err => text ++ str " : " ++ err.text

/-- `errors.Is(err, target)`. -/
def is (target : Err) : Err → Bool
  | detail err text => decide (detail err text = target) || is target err
  | context text err => decide (context text err = target) || is target err
  | err => decide (err = target)

end Err

end WasmRedis
