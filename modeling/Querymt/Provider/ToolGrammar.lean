/-
`ToolGrammar.lean` -- the texts that the tool grammars let a model write.

Models the grammars of `providers/llama-cpp/src/chat_format.rs`. A grammar is given to
the sampler as GBNF text; here each of its rules is a relation between a text and what
the text stands for, so that a text of the language comes with its tree: a list of
calls, each with the name of a tool and an argument object.

A call also keeps its own text and the leaves of its tree: the values, as they are
written, that an extractor has to take over without a rule of the grammar to guide it.

Names of tools stand in the grammar as literals. `gbnf_literal` escapes them; the grammar
of `QwenFunction` puts names of tools and parameters into its literals as they are.
`Gbnf` is how the sampler reads a literal.
-/
import Querymt.Provider.ToolCalls

set_option autoImplicit false

open Texts

namespace Querymt.Llama

/-! ## Literals -/

/-- What `llama.cpp` makes of the text between the quotes of a literal. -/
structure Gbnf where
  literal : Text → Option Text
  literal_nil : literal [] = some []
  literal_plain : ∀ c s, c ≠ '"' → c ≠ '\\' → literal (c :: s) = (literal s).map (c :: ·)
  literal_backslash : ∀ s, literal ('\\' :: '\\' :: s) = (literal s).map ('\\' :: ·)
  literal_quote : ∀ s, literal ('\\' :: '"' :: s) = (literal s).map ('"' :: ·)
  literal_newline : ∀ s, literal ('\\' :: 'n' :: s) = (literal s).map ('\n' :: ·)
  literal_return : ∀ s, literal ('\\' :: 'r' :: s) = (literal s).map ('\r' :: ·)
  literal_tab : ∀ s, literal ('\\' :: 't' :: s) = (literal s).map ('\t' :: ·)

/-- What `gbnf_literal` writes for a character. -/
def gbnf_escape (c : Char) : Text :=
  if c = '\\' then ['\\', '\\']
  else if c = '"' then ['\\', '"']
  else if c = '\n' then ['\\', 'n']
  else if c = '\r' then ['\\', 'r']
  else if c = '\t' then ['\\', 't']
  else [c]

/-- `gbnf_literal`, without the quotes around it. -/
def gbnf_literal (value : Text) : Text := value.flatMap gbnf_escape

/-! ## Terminals -/

def Ws (w : Text) : Prop := ∀ c ∈ w, c ∈ [' ', '\t', '\n', '\r']

/-- `[A-Za-z_][A-Za-z0-9_-]*`. -/
def Identifier (s : Text) : Prop :=
  ∃ c cs, s = c :: cs ∧ (c.isAlpha ∨ c = '_') ∧ ∀ d ∈ cs, d.isAlphanum ∨ d = '_' ∨ d = '-'

/-- `"-"? ([0-9] | [1-9] [0-9]*) ("." [0-9]+)? ([eE] [+-]? [0-9]+)?`. -/
def Number (s : Text) : Prop :=
  ∃ sign int frac exp, s = sign ++ (int ++ (frac ++ exp)) ∧
    (sign = [] ∨ sign = ['-']) ∧
    (∃ c cs, int = c :: cs ∧ c.isDigit ∧ (∀ d ∈ cs, d.isDigit) ∧ (cs = [] ∨ c ≠ '0')) ∧
    (frac = [] ∨ ∃ ds, frac = '.' :: ds ∧ ds ≠ [] ∧ ∀ d ∈ ds, d.isDigit) ∧
    (exp = [] ∨ ∃ e plus ds, exp = e :: (plus ++ ds) ∧ (e = 'e' ∨ e = 'E') ∧
      (plus = [] ∨ plus = ['+'] ∨ plus = ['-']) ∧ ds ≠ [] ∧ ∀ d ∈ ds, d.isDigit)

def IsHex (c : Char) : Prop := (Encodings.hex_value c).isSome

/-- `([^"\\] | "\\" escape)*`, with the escapes of JSON. -/
inductive Characters : Text → Prop
  | nil : Characters []
  | plain {c : Char} {s : Text} : c ≠ '"' → c ≠ '\\' → Characters s → Characters (c :: s)
  | escape {c : Char} {s : Text} : c ∈ ['"', '\\', '/', 'b', 'f', 'n', 'r', 't'] →
      Characters s → Characters ('\\' :: c :: s)
  | unicode {h₁ h₂ h₃ h₄ : Char} {s : Text} : IsHex h₁ → IsHex h₂ → IsHex h₃ → IsHex h₄ →
      Characters s → Characters ('\\' :: 'u' :: h₁ :: h₂ :: h₃ :: h₄ :: s)

/-! ## What the terminals denote -/

/-- The code unit of four hexadecimal digits. -/
def code_unit (h₁ h₂ h₃ h₄ : Char) : Option ℕ := do
  let a ← Encodings.hex_value h₁
  let b ← Encodings.hex_value h₂
  let c ← Encodings.hex_value h₃
  let d ← Encodings.hex_value h₄
  return ((a * 16 + b) * 16 + c) * 16 + d

/-- The characters of a JSON string: escapes stand for a character each, two code units
of a surrogate pair for one. -/
def unescape : Text → Option Text
  | [] => some []
  | '\\' :: 'u' :: h₁ :: h₂ :: h₃ :: h₄ :: '\\' :: 'u' :: l₁ :: l₂ :: l₃ :: l₄ :: s => do
      let hi ← code_unit h₁ h₂ h₃ h₄
      if 0xd800 ≤ hi ∧ hi < 0xdc00 then
        let lo ← code_unit l₁ l₂ l₃ l₄
        if 0xdc00 ≤ lo ∧ lo < 0xe000 then
          return Char.ofNat (0x10000 + (hi - 0xd800) * 0x400 + (lo - 0xdc00)) :: (← unescape s)
        else none
      else if 0xdc00 ≤ hi ∧ hi < 0xe000 then none
      else return Char.ofNat hi :: (← unescape ('\\' :: 'u' :: l₁ :: l₂ :: l₃ :: l₄ :: s))
  | '\\' :: 'u' :: h₁ :: h₂ :: h₃ :: h₄ :: s => do
      let unit ← code_unit h₁ h₂ h₃ h₄
      if 0xd800 ≤ unit ∧ unit < 0xe000 then none
      else return Char.ofNat unit :: (← unescape s)
  | '\\' :: 'b' :: s => do return '\x08' :: (← unescape s)
  | '\\' :: 'f' :: s => do return '\x0c' :: (← unescape s)
  | '\\' :: 'n' :: s => do return '\n' :: (← unescape s)
  | '\\' :: 'r' :: s => do return '\r' :: (← unescape s)
  | '\\' :: 't' :: s => do return '\t' :: (← unescape s)
  | '\\' :: c :: s => do return c :: (← unescape s)
  | c :: s => do return c :: (← unescape s)

variable (S : Serde)

def string_value (s : Text) : Json S.Number := (unescape s).elim .bad .str

def number_value (s : Text) : Json S.Number := (S.number s).elim .bad .num

/-- A member with the key as it is written; where the key is no string, there is no
value either. -/
def member_value (key : Text) (v : Json S.Number) : Text × Json S.Number :=
  (unescape key).elim (key, .bad) (·, v)

/-! ## JSON

`json_gbnf_rules`, and the `json-` rules of `QwenFunction`, which are the same. -/

/-- What a rule of the JSON part stands for. -/
inductive Part (N : Type)
  | value (v : Json N)
  | elements (vs : List (Json N))
  | members (ms : List (Text × Json N))

inductive Derives : Text → Part S.Number → Prop
  | null : Derives "null".toList (.value .null)
  | true : Derives "true".toList (.value (.bool true))
  | false : Derives "false".toList (.value (.bool false))
  | number {s : Text} : Number s → Derives s (.value (number_value S s))
  | string {s : Text} : Characters s → Derives ('"' :: (s ++ ['"'])) (.value (string_value S s))
  | array_empty {w : Text} : Ws w → Derives ('[' :: (w ++ [']'])) (.value (.arr []))
  | array {w t w' : Text} {vs : List (Json S.Number)} : Ws w → Derives t (.elements vs) → Ws w' →
      Derives ('[' :: (w ++ (t ++ w') ++ [']'])) (.value (.arr vs))
  | object_empty {w : Text} : Ws w → Derives ('\x7b' :: (w ++ ['\x7d'])) (.value (.obj []))
  | object {w t w' : Text} {ms : List (Text × Json S.Number)} : Ws w → Derives t (.members ms) →
      Ws w' → Derives ('\x7b' :: (w ++ (t ++ w') ++ ['\x7d'])) (.value (.object ms))
  | element {t : Text} {v : Json S.Number} : Derives t (.value v) → Derives t (.elements [v])
  | elements {t w w' t' : Text} {v : Json S.Number} {vs : List (Json S.Number)} :
      Derives t (.value v) → Ws w → Ws w' → Derives t' (.elements vs) →
      Derives (t ++ (w ++ ',' :: (w' ++ t'))) (.elements (v :: vs))
  | member {k w w' t : Text} {v : Json S.Number} : Characters k → Ws w → Ws w' →
      Derives t (.value v) →
      Derives ('"' :: (k ++ ['"']) ++ (w ++ ':' :: (w' ++ t))) (.members [member_value S k v])
  | members {k w₁ w₂ t w w' t' : Text} {v : Json S.Number} {ms : List (Text × Json S.Number)} :
      Characters k → Ws w₁ → Ws w₂ → Derives t (.value v) → Ws w → Ws w' →
      Derives t' (.members ms) →
      Derives ('"' :: (k ++ ['"']) ++ (w₁ ++ ':' :: (w₂ ++ t)) ++ (w ++ ',' :: (w' ++ t')))
        (.members (member_value S k v :: ms))

/-- What is relied upon of `serde_json`: a text that it accepts and that is a value of
the JSON rules is read as what the rules say, it accepts the three words, and no JSON
text starts as a tag does. -/
structure Serde.Lawful : Prop where
  agrees : ∀ {t u v}, Derives S t (.value v) → S.from_str t = some u → u = v
  null : S.from_str "null".toList = some .null
  true : S.from_str "true".toList = some (.bool true)
  false : S.from_str "false".toList = some (.bool false)
  no_tag : ∀ s, S.from_str ('<' :: s) = none

/-! ## The last format's values -/

/-- A value as it is written: JSON that is handed to `serde_json`, or free text. -/
inductive Leaf
  | json (t : Text)
  | text (t : Text)

/-- The values of `Gemma4`: strings between quotes of its own, keys without quotes. The
last argument collects the numbers and strings. -/
inductive Gemma : Text → Part S.Number → List Leaf → Prop
  | null : Gemma "null".toList (.value .null) []
  | true : Gemma "true".toList (.value (.bool true)) []
  | false : Gemma "false".toList (.value (.bool false)) []
  | number {s : Text} : Number s → Gemma s (.value (number_value S s)) [.json s]
  | string {s : Text} : Characters s →
      Gemma (gemma_quote ++ (s ++ gemma_quote)) (.value (string_value S s)) [.text s]
  | array_empty {w : Text} : Ws w → Gemma ('[' :: (w ++ [']'])) (.value (.arr [])) []
  | array {w t w' : Text} {vs : List (Json S.Number)} {ls : List Leaf} : Ws w →
      Gemma t (.elements vs) ls → Ws w' →
      Gemma ('[' :: (w ++ (t ++ w') ++ [']'])) (.value (.arr vs)) ls
  | object_empty {w : Text} : Ws w → Gemma ('\x7b' :: (w ++ ['\x7d'])) (.value (.obj [])) []
  | object {w t w' : Text} {ms : List (Text × Json S.Number)} {ls : List Leaf} : Ws w →
      Gemma t (.members ms) ls → Ws w' →
      Gemma ('\x7b' :: (w ++ (t ++ w') ++ ['\x7d'])) (.value (.object ms)) ls
  | element {t : Text} {v : Json S.Number} {ls : List Leaf} : Gemma t (.value v) ls →
      Gemma t (.elements [v]) ls
  | elements {t w t' : Text} {v : Json S.Number} {vs : List (Json S.Number)} {ls ls' : List Leaf} :
      Gemma t (.value v) ls → Ws w → Gemma t' (.elements vs) ls' →
      Gemma (t ++ ',' :: (w ++ t')) (.elements (v :: vs)) (ls ++ ls')
  | member {k w w' t : Text} {v : Json S.Number} {ls : List Leaf} : Identifier k → Ws w → Ws w' →
      Gemma t (.value v) ls → Gemma (k ++ w ++ ':' :: (w' ++ t)) (.members [(k, v)]) ls
  | members {k w w' t w₁ t' : Text} {v : Json S.Number} {ms : List (Text × Json S.Number)}
      {ls ls' : List Leaf} : Identifier k → Ws w → Ws w' → Gemma t (.value v) ls → Ws w₁ →
      Gemma t' (.members ms) ls' →
      Gemma (k ++ w ++ ':' :: (w' ++ t) ++ ',' :: (w₁ ++ t')) (.members ((k, v) :: ms)) (ls ++ ls')

/-! ## Calls -/

/-- An argument of a call. -/
structure Arg (N : Type) where
  key : Text
  value : Json N
  leaf : Leaf

/-- A call of the tree: the name of its tool and the argument object. `text` is what
stands for it within its tags, `leaves` are the values in it, and `params` the names of
its parameters where they are those of the schema. -/
structure Call (N : Type) where
  name : Text
  arguments : Json N
  params : List Text
  leaves : List Leaf
  text : Text

structure Tool (N : Type) where
  name : Text
  parameters : Json N

/-- `x+`. -/
inductive Many {α : Type} (rule : Text → α → Prop) : Text → List α → Prop
  | one {t : Text} {a : α} : rule t a → Many rule t [a]
  | cons {t t' : Text} {a : α} {as : List α} : rule t a → Many rule t' as →
      Many rule (t ++ t') (a :: as)

/-- `x ("," ws x)*`. -/
inductive Separated {α : Type} (rule : Text → α → Prop) : Text → List α → Prop
  | one {t : Text} {a : α} : rule t a → Separated rule t [a]
  | cons {t w t' : Text} {a : α} {as : List α} : rule t a → Ws w → Separated rule t' as →
      Separated rule (t ++ ',' :: (w ++ t')) (a :: as)

/-- `(x ("," ws x)*)?`. -/
def Listed {α : Type} (rule : Text → α → Prop) (t : Text) (as : List α) : Prop :=
  (t = [] ∧ as = []) ∨ Separated rule t as

variable (L : Gbnf) (tools : List (Tool S.Number))

/-- `tool_names_rule`: a tool's name through its literal. -/
def ToolName (name text : Text) : Prop :=
  (∃ tool ∈ tools, tool.name = name) ∧ L.literal (gbnf_literal name) = some text

/-- The object of the arguments. -/
def arguments_of (args : List (Arg S.Number)) : Json S.Number :=
  .object (args.map fun a => (a.key, a.value))

/-! ### `Qwen3` -/

inductive Qwen3Call : Text → Call S.Number → Prop
  | call {name text obj w₁ w₂ w₃ w₄ w₅ w₆ w₇ w₈ w₉ w₁₀ w₁₁ body : Text}
      {ms : List (Text × Json S.Number)} : ToolName S L tools name text →
      Derives S obj (.value (.obj ms)) → Ws w₁ → Ws w₂ → Ws w₃ → Ws w₄ → Ws w₅ → Ws w₆ → Ws w₇ →
      Ws w₈ → Ws w₉ → Ws w₁₀ → Ws w₁₁ →
      body = w₁ ++ '\x7b' :: (w₂ ++ ("\"name\"".toList ++ (w₃ ++ ':' :: (w₄ ++ (text ++ (w₅ ++
        ',' :: (w₆ ++ ("\"arguments\"".toList ++ (w₇ ++ ':' :: (w₈ ++ (obj ++ (w₉ ++
          '\x7d' :: w₁₀)))))))))))) →
      Qwen3Call ("<tool_call>".toList ++ (body ++ ("</tool_call>".toList ++ w₁₁)))
        ⟨name, .obj ms, [], [.json obj], body⟩

/-! ### `QwenFunction` -/

def properties (schema : Json S.Number) : List (Text × Json S.Number) :=
  match schema.get "properties".toList with
  | some (.obj ms) => ms
  | _ => []

def Json.strings {N : Type} : Option (Json N) → List Text
  | some (.arr vs) => vs.filterMap Json.as_str
  | _ => []

def required_params (schema : Json S.Number) : List Text :=
  Json.strings (schema.get "required".toList)

def schema_type (schema : Json S.Number) : Option Text :=
  (schema.get "type".toList).bind Json.as_str

def enum_literals (schema : Json S.Number) : List Text :=
  Json.strings (schema.get "enum".toList)

def is_text (schema : Json S.Number) : Prop :=
  schema_type S schema = none ∨ schema_type S schema = some "string".toList

/-- `parameter_value_expr`. A type that it does not know is given a rule that refers to
itself, and has no text. -/
inductive ParameterValue (schema : Json S.Number) : Text → Json S.Number → Leaf → Prop
  | text {s : Text} : is_text S schema → enum_literals S schema = [] → '<' ∉ s →
      ParameterValue schema s (.str s) (.text s)
  | enum {e s : Text} : is_text S schema → e ∈ enum_literals S schema →
      L.literal (gbnf_literal e) = some s → ParameterValue schema s (.str s) (.text s)
  | number {s : Text} :
      schema_type S schema = some "integer".toList ∨ schema_type S schema = some "number".toList →
      Number s → ParameterValue schema s (number_value S s) (.json s)
  | true : schema_type S schema = some "boolean".toList →
      ParameterValue schema "true".toList (.bool true) (.json "true".toList)
  | false : schema_type S schema = some "boolean".toList →
      ParameterValue schema "false".toList (.bool false) (.json "false".toList)
  | null : schema_type S schema = some "null".toList →
      ParameterValue schema "null".toList .null (.json "null".toList)
  | array {s : Text} {vs : List (Json S.Number)} : schema_type S schema = some "array".toList →
      Derives S s (.value (.arr vs)) → ParameterValue schema s (.arr vs) (.json s)
  | object {s : Text} {ms : List (Text × Json S.Number)} :
      schema_type S schema = some "object".toList → Derives S s (.value (.obj ms)) →
      ParameterValue schema s (.obj ms) (.json s)

def sanitize_rule_name (value : Text) : Text := value.map fun c => if c.isAlphanum then c else '-'

/-- The rule of a parameter. Rules are called by the sanitized name, so the value may be
that of another parameter with the same one. -/
inductive QwenParam (props : List (Text × Json S.Number)) (rule : Text) :
    Text → Arg S.Number → Prop
  | param {p q : Text × Json S.Number} {head s : Text} {v : Json S.Number} {leaf : Leaf} :
      p ∈ props → sanitize_rule_name p.1 = rule → q ∈ props → sanitize_rule_name q.1 = rule →
      L.literal ("<parameter=".toList ++ (p.1 ++ ">\\n".toList)) = some head →
      ParameterValue S L q.2 s v leaf →
      QwenParam props rule (head ++ (s ++ "\n</parameter>\n".toList)) ⟨p.1, v, leaf⟩

/-- The parameters in the order of the schema, the optional ones or not. -/
inductive QwenParams (props : List (Text × Json S.Number)) (required : List Text) :
    List (Text × Json S.Number) → Text → List (Arg S.Number) → Prop
  | nil : QwenParams props required [] [] []
  | skip {p : Text × Json S.Number} {ps : List (Text × Json S.Number)} {t : Text}
      {args : List (Arg S.Number)} : p.1 ∉ required → QwenParams props required ps t args →
      QwenParams props required (p :: ps) t args
  | take {p : Text × Json S.Number} {ps : List (Text × Json S.Number)} {t t' : Text}
      {a : Arg S.Number} {args : List (Arg S.Number)} :
      QwenParam S L props (sanitize_rule_name p.1) t a → QwenParams props required ps t' args →
      QwenParams props required (p :: ps) (t ++ t') (a :: args)

inductive QwenFunctionCall : Text → Call S.Number → Prop
  | call {tool : Tool S.Number} {head t : Text} {args : List (Arg S.Number)} : tool ∈ tools →
      L.literal ("<function=".toList ++ (tool.name ++ ">\\n".toList)) = some head →
      QwenParams S L (properties S tool.parameters) (required_params S tool.parameters)
        (properties S tool.parameters) t args →
      QwenFunctionCall
        ("<tool_call>".toList ++ ('\n' :: (head ++ (t ++ "</function>\n".toList)) ++
          "</tool_call>".toList))
        ⟨tool.name, arguments_of S args, args.map Arg.key, args.map Arg.leaf,
          '\n' :: (head ++ (t ++ "</function>\n".toList))⟩

/-! ### `Ministral3` -/

inductive MinistralCall : Text → Call S.Number → Prop
  | call {name text obj w : Text} {ms : List (Text × Json S.Number)} : ToolName S L tools name text →
      Derives S obj (.value (.obj ms)) → Ws w →
      MinistralCall ("[TOOL_CALLS]".toList ++ (text ++ ("[ARGS]".toList ++ (obj ++ w))))
        ⟨name, .obj ms, [], [.json obj], text ++ ("[ARGS]".toList ++ obj)⟩

/-! ### `Lfm2` -/

inductive Kwarg : Text → Arg S.Number → Prop
  | kwarg {key w w' t : Text} {v : Json S.Number} : Identifier key → Ws w → Ws w' →
      Derives S t (.value v) → Kwarg (key ++ w ++ '=' :: (w' ++ t)) ⟨key, v, .json t⟩

inductive Lfm2Call : Text → Call S.Number → Prop
  | call {name text w t w' : Text} {args : List (Arg S.Number)} : ToolName S L tools name text →
      Ws w → Listed (Kwarg S) t args → Ws w' →
      Lfm2Call (text ++ '(' :: (w ++ (t ++ w') ++ [')']))
        ⟨name, arguments_of S args, [], args.map Arg.leaf,
          text ++ '(' :: (w ++ (t ++ w') ++ [')'])⟩

/-! ### `FunctionGemma` -/

inductive GemmaParam : Text → Arg S.Number → Prop
  | param {key w w' s : Text} : Identifier key → Ws w → Ws w' → '<' ∉ s →
      GemmaParam (key ++ w ++ ':' :: (w' ++ ("<escape>".toList ++ (s ++ "<escape>".toList))))
        ⟨key, .str s, .text s⟩

inductive FunctionGemmaCall : Text → Call S.Number → Prop
  | call {name text w t w' w'' body : Text} {args : List (Arg S.Number)} :
      ToolName S L tools name text → Ws w → Listed (GemmaParam S) t args → Ws w' → Ws w'' →
      body = "call:".toList ++ (text ++ '\x7b' :: (w ++ (t ++ w') ++ ['\x7d'])) →
      FunctionGemmaCall
        ("<start_function_call>".toList ++ (body ++ ("<end_function_call>".toList ++ w'')))
        ⟨name, arguments_of S args, [], args.map Arg.leaf, body⟩

/-! ### `Gemma4` -/

inductive Gemma4Call : Text → Call S.Number → Prop
  | call {name text obj w body : Text} {ms : List (Text × Json S.Number)} {ls : List Leaf} :
      ToolName S L tools name text → Gemma S obj (.value (.obj ms)) ls → Ws w →
      body = "call:".toList ++ (text ++ obj) →
      Gemma4Call ("<|tool_call>".toList ++ (body ++ ("<tool_call|>".toList ++ w)))
        ⟨name, .obj ms, [], ls, body⟩

/-! ### The languages -/

inductive ToolFormat
  | Qwen3
  | QwenFunction
  | Ministral3
  | Lfm2
  | FunctionGemma
  | Gemma4
  deriving DecidableEq

/-- The text is in the language of the format's grammar for the tools, with these
calls. -/
def ToolFormat.Language (format : ToolFormat) (text : Text) (calls : List (Call S.Number)) : Prop :=
  match format with
  | Qwen3 => Many (Qwen3Call S L tools) text calls
  | QwenFunction => Many (QwenFunctionCall S L tools) text calls
  | Ministral3 => Many (MinistralCall S L tools) text calls
  | Lfm2 => ∃ body w, Separated (Lfm2Call S L tools) body calls ∧ Ws w ∧
      text = "<|tool_call_start|>".toList ++ ('[' :: (body ++ [']']) ++
        ("<|tool_call_end|>".toList ++ w))
  | FunctionGemma => Many (FunctionGemmaCall S L tools) text calls
  | Gemma4 => Many (Gemma4Call S L tools) text calls

end Querymt.Llama
