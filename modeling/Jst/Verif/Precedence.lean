import Mathlib.Data.List.Forall2
import Jst.Lang.OperatorTree
/-!
# Precedence

What the native parser makes of a printed operator tree. Every tree is read up to what follows it,
if the operators behind it bind less tightly; the left operand of an operator is read first, and the
loop of the parser goes on with its node.
-/
namespace Jst.Verif.Precedence

open Jst.Lang Jst.Lang.NativeParser Jst.Lang.OperatorTree
open Jst.Consumer (Follows bind_ok bind_error)
open Nat (lt_succ_self succ_pos)
open List (Forall₂ map_eq_append_iff map_eq_cons_iff map_eq_singleton_iff)

variable {context : Context}

/-! ## Steps of the parser -/

/-- The tokens that an expression does not start with. -/
def IsKeyword (type : TokenType) : Prop :=
  type = .local ∨ type = .import ∨ type = .function ∨ type = .if

variable {next token : Token}

theorem token_of_content {type : TokenType} {value : Str}
    (content : token.content = (type, value)) : token.type = type ∧ token.value = value :=
  Prod.mk.inj content

variable {front rest : List Token}

theorem popCheck_cons {type : TokenType}
    (same : token.type = type) : popCheck type none (token :: rest) = .ok (token, rest) := by
  rw [popCheck, bind_ok (rfl : pop (_ :: _) = .ok (_, _)), if_neg (not_not_intro same)]
  rfl

variable {depth level limit max : Nat}

theorem parse_operand
    (noKeyword : ¬IsKeyword token.type) :
    parse context (depth + 2) max (token :: rest) =
      (parseSimple context (depth + 1) >>= fun lhs => parseInfix context (depth + 1) lhs max)
        (token :: rest) := by
  have noImport : parseLocalImport context (depth + 1) (token :: rest) =
      .ok (none, token :: rest) := by
    rw [parseLocalImport]
    obtain ⟨type, value, place⟩ := token
    cases type <;> first | rfl | exact absurd (by simp [IsKeyword]) noKeyword
  rw [parse, bind_ok noImport]
  rfl

theorem parseSimple_atom {operand : Atom}
    (content : token.content = operand.content) :
    parseSimple context (depth + 1) (token :: rest) = .ok (operand.node, rest) := by
  obtain ⟨type, value, place⟩ := token
  rw [parseSimple]
  cases operand with
  | identifier | var | null =>
    obtain ⟨rfl, rfl⟩ := token_of_content content
    rfl
  | bool value =>
    cases value <;> (obtain ⟨rfl, rfl⟩ := token_of_content content; rfl)
  | string quotes isString text =>
    rcases isString with rfl | rfl | rfl <;> (obtain ⟨rfl, rfl⟩ := token_of_content content; rfl)
  | number text found reads | reference text data reads =>
    obtain ⟨rfl, rfl⟩ := token_of_content content
    rw [bind_ok (rfl : pop (_ :: _) = .ok (_, _))]
    dsimp only at reads ⊢
    rw [reads]
    rfl

theorem parseSimple_unary
    {operator : UnaryOperation} (content : token.content = (.operator, operator.text)) :
    parseSimple context (depth + 1) (token :: rest) =
      (parse context depth unaryPriority >>= fun operand =>
        pure (.unary operator operand (some operator.valueType))) rest := by
  obtain ⟨type, value, place⟩ := token
  obtain ⟨rfl, rfl⟩ := token_of_content content
  rw [parseSimple]
  cases operator <;> rfl

theorem parseSimple_paren {depth : Nat} {token : Token} {rest : List Token}
    (content : token.content = (.parenL, lit "(")) :
    parseSimple context (depth + 1) (token :: rest) =
      (parse context depth maxPriority >>= fun body => popCheck .parenR none >>= fun _ =>
        pure body) rest := by
  obtain ⟨type, value, place⟩ := token
  obtain ⟨rfl, rfl⟩ := token_of_content content
  rw [parseSimple]
  rfl
variable {lhs target : Node}

theorem parseInfix_short
    (short : rest.length < 2) :
    parseInfix context (depth + 1) lhs max rest = .ok (lhs, rest) := by
  rw [parseInfix]
  show (if rest.length < 2 then pure lhs else _ : Parse Node) rest = _
  rw [if_pos short]
  rfl

theorem length_cons_cons :
    ¬(token :: next :: rest).length < 2 := by
  rw [length_cons, length_cons]
  omega

variable {operator : Operator}

theorem parseInfix_binary (content : token.content = (.operator, operator.text))
    (tighter : operator.precedence < max) :
    parseInfix context (depth + 1) lhs max (token :: next :: rest) =
      (parse context depth operator.precedence >>= fun rhs =>
        parseInfix context depth (operator.node lhs rhs) max) (next :: rest) := by
  obtain ⟨type, value, place⟩ := token
  obtain ⟨rfl, rfl⟩ := token_of_content content
  rw [parseInfix, bind_ok (rfl : size _ = .ok (_, _)), if_neg length_cons_cons,
    bind_ok (rfl : peek (_ :: _) = .ok (_, _))]
  cases operator <;>
    exact (congrFun (if_neg (Nat.not_le.mpr tighter)) _).trans (bind_ok rfl)

theorem parseInfix_stops (content : token.content = (.operator, operator.text))
    (looser : max ≤ operator.precedence) :
    parseInfix context (depth + 1) lhs max (token :: rest) = .ok (lhs, token :: rest) := by
  cases rest with
  | nil => exact parseInfix_short (lt_succ_self 1)
  | cons next rest =>
    obtain ⟨type, value, place⟩ := token
    obtain ⟨rfl, rfl⟩ := token_of_content content
    rw [parseInfix, bind_ok (rfl : size _ = .ok (_, _)), if_neg length_cons_cons,
      bind_ok (rfl : peek (_ :: _) = .ok (_, _))]
    cases operator <;> exact congrFun (if_pos looser) _
/-- The tokens that end an operand of any operators. -/
def IsCloser (type : TokenType) : Prop := type = .parenR ∨ type = .bracketR ∨ type = .comma

theorem parseInfix_closer
    (closer : IsCloser token.type) :
    parseInfix context (depth + 1) lhs max (token :: rest) = .ok (lhs, token :: rest) := by
  cases rest with
  | nil => exact parseInfix_short (lt_succ_self 1)
  | cons next rest =>
    obtain ⟨type, value, place⟩ := token
    rw [parseInfix, bind_ok (rfl : size _ = .ok (_, _)), if_neg length_cons_cons,
      bind_ok (rfl : peek (_ :: _) = .ok (_, _))]
    rcases closer with same | same | same <;> (cases same; rfl)

/-- The tokens of calls, indices and fields. -/
def IsPostfix (type : TokenType) : Prop := type = .parenL ∨ type = .bracketL ∨ type = .dot

theorem parseInfix_postfix
    (isPostfix : IsPostfix token.type) (looser : max ≤ applyPriority) :
    parseInfix context (depth + 1) lhs max (token :: rest) = .ok (lhs, token :: rest) := by
  cases rest with
  | nil => exact parseInfix_short (lt_succ_self 1)
  | cons next rest =>
    obtain ⟨type, value, place⟩ := token
    rw [parseInfix, bind_ok (rfl : size _ = .ok (_, _)), if_neg length_cons_cons,
      bind_ok (rfl : peek (_ :: _) = .ok (_, _))]
    rcases isPostfix with same | same | same <;> (cases same; exact congrFun (if_pos looser) _)

theorem parseInfix_field {name : Token}
    (dot : token.type = .dot) (identifier : name.type = .identifier)
    (tighter : applyPriority < max) :
    parseInfix context (depth + 1) lhs max (token :: name :: rest) =
      parseInfix context depth (.lookup (.string name.value) lhs none) max rest := by
  obtain ⟨type, value, place⟩ := token
  obtain ⟨nameType, name, namePlace⟩ := name
  cases dot
  cases identifier
  rw [parseInfix, bind_ok (rfl : size _ = .ok (_, _)), if_neg length_cons_cons,
    bind_ok (rfl : peek (_ :: _) = .ok (_, _))]
  exact congrFun (if_neg (Nat.not_le.mpr tighter)) _

theorem parseInfix_index
    (bracket : token.type = .bracketL) (noBrace : next.type ≠ .braceR)
    (tighter : applyPriority < max) :
    parseInfix context (depth + 1) lhs max (token :: next :: rest) =
      (if next.value = lit ":" ∨ next.value = lit "::" then
        parserException (lit "does not support slice")
      else do
        let target ← parse context depth maxPriority
        let close ← peek
        if close.type ≠ .bracketR then parserException (lit "does not support slice")
        else do
          advance
          let _ ← peek
          parseInfix context depth (.lookup target lhs none) max) (next :: rest) := by
  obtain ⟨type, value, place⟩ := token
  cases bracket
  rw [parseInfix, bind_ok (rfl : size _ = .ok (_, _)), if_neg length_cons_cons,
    bind_ok (rfl : peek (_ :: _) = .ok (_, _))]
  refine (congrFun (if_neg (Nat.not_le.mpr tighter)) _).trans ?_
  exact (bind_ok rfl).trans ((bind_ok rfl).trans (congrFun (if_neg noBrace) _))

theorem parseInfix_call
    (paren : token.type = .parenL) (tighter : applyPriority < max) :
    parseInfix context (depth + 1) lhs max (token :: next :: rest) =
      (callParams <$> parseArgs context depth true false >>= fun params => do
        closeCall
        let _ ← peek
        if positionalBehindNamed false params then
          parserException (lit "Positional argument after a named argument is not allowed")
        else parseInfix context depth (makeCall lhs params) max) (next :: rest) := by
  obtain ⟨type, value, place⟩ := token
  cases paren
  rw [parseInfix, bind_ok (rfl : size _ = .ok (_, _)), if_neg length_cons_cons,
    bind_ok (rfl : peek (_ :: _) = .ok (_, _))]
  refine (congrFun (if_neg (Nat.not_le.mpr tighter)) _).trans ?_
  rw [bind_map_left]
  exact bind_ok rfl
/-! ## What the parser makes of a tree -/

/-- A text starts like a slice. -/
def startsSlice (text : List Content) : Bool :=
  text.head?.any fun content => content.2 = lit ":" ∨ content.2 = lit "::"

/-- Parameters whose nodes are all there. -/
def together : List (Option Str × Option Node) → Option (List (Option Str × Node))
  | [] => some []
  | (name, found) :: rest => found.bind fun node => (together rest).map ((name, node) :: ·)

mutual
/-- The node that the parser makes of an expression in front of more tokens, if any. An index that
starts like a slice is refused, and a call that is called loses its own parameters. -/
def parsed : OperatorTree → Option Node
  | .atom operand => some operand.node
  | .unary operator operand =>
    (parsed operand).map (.unary operator · (some operator.valueType))
  | .binary operator left right =>
    (parsed left).bind fun left => (parsed right).map fun right => operator.node left right
  | .call callee positional named =>
    (parsed callee).bind fun callee =>
      (together (parsedPositional positional ++ parsedNamed named)).map fun params =>
        makeCall callee params
  | .index container position =>
    (parsed container).bind fun container =>
      if startsSlice position.print then none
      else (parsed position).map fun position => .lookup position container none
  | .field container name =>
    (parsed container).map fun container => .lookup (.string name) container none

/-- The nodes that the parser makes of positional arguments. -/
def parsedPositional : List OperatorTree → List (Option Str × Option Node)
  | [] => []
  | argument :: rest => (none, parsed argument) :: parsedPositional rest

/-- The nodes that the parser makes of named arguments. -/
def parsedNamed : List (Str × OperatorTree) → List (Option Str × Option Node)
  | [] => []
  | (name, argument) :: rest => (some name, parsed argument) :: parsedNamed rest
end

/-- The precedence of the operator that the loop of the parser reads last. -/
def loopLevel : OperatorTree → Nat
  | .atom _ | .unary _ _ => 0
  | .binary operator _ _ => operator.precedence
  | _ => applyPriority

/-- The loop stops in front of tokens unless it may read looser operators than a level. -/
def Stops (context : Context) (level : Nat) (rest : List Token) : Prop :=
  ∀ depth lhs max, max ≤ level → parseInfix context (depth + 1) lhs max rest = .ok (lhs, rest)

/-- A text is read as an expression in front of tokens where the loop stops: the loop goes on there.
-/
def Reads (context : Context) (tree : OperatorTree) : Prop :=
  ∀ front rest depth max, front.map Token.content = tree.print → rest ≠ [] →
    loopLevel tree < max → Stops context tree.level rest →
    3 * (front.length + rest.length) + 2 ≤ depth →
    ∃ depth', 3 * rest.length + 1 ≤ depth' ∧
      Follows (parsed tree) (fun node => parseInfix context depth' node max rest)
        (parse context depth max (front ++ rest))

/-! ## The first tokens -/

/-- A token that an expression may start with. -/
def IsStart (content : Content) : Prop :=
  ¬IsKeyword content.1 ∧ content.1 ≠ .parenR ∧ content.1 ≠ .braceR ∧ content ≠ (.operator, lit "=")

/-- A text starts with an expression. -/
def StartsOperand (text : List Content) : Prop :=
  ∃ first more, text = first :: more ∧ IsStart first ∧ more.head? ≠ some (.operator, lit "=")

theorem isStart_content (operand : Atom) : IsStart operand.content := by
  cases operand with
  | bool value => cases value <;> simp [IsStart, IsKeyword, Atom.content]
  | string type isString value =>
    rcases isString with rfl | rfl | rfl <;> simp [IsStart, IsKeyword, Atom.content]
  | _ => simp [IsStart, IsKeyword, Atom.content]

theorem startsOperand_enclosed {limit level : Nat} {text : List Content}
    (starts : StartsOperand text) : StartsOperand (enclosed limit level text) := by
  unfold enclosed
  split
  · exact starts
  · obtain ⟨first, more, rfl, isStart, -⟩ := starts
    refine ⟨_, _, rfl, by simp [IsStart, IsKeyword], ?_⟩
    intro same
    exact isStart.2.2.2 (some.inj same)

variable {text : List Content}

theorem StartsOperand.append {rest : List Content} {next : Content}
    (starts : StartsOperand text) (noName : next ≠ (.operator, lit "=")) :
    StartsOperand (text ++ next :: rest) := by
  obtain ⟨first, more, rfl, isStart, noEquals⟩ := starts
  refine ⟨first, more ++ next :: rest, rfl, isStart, ?_⟩
  cases more with
  | nil => exact fun same => noName (some.inj same)
  | cons second more => exact noEquals

theorem text_ne_equals (operator : Operator) :
    ((.operator, operator.text) : Content) ≠ (.operator, lit "=") := by
  cases operator <;> decide

theorem startsOperand_print : ∀ tree : OperatorTree, StartsOperand tree.print
  | .atom operand => ⟨_, _, by rw [print], isStart_content operand, by simp⟩
  | .unary operator operand => by
    obtain ⟨first, more, same, isStart, -⟩ :=
      @startsOperand_enclosed unaryPriority operand.level _ (startsOperand_print operand)
    rw [print, same]
    refine ⟨_, _, rfl, ?_, fun equals => isStart.2.2.2 (some.inj equals)⟩
    cases operator <;> exact ⟨by simp [IsKeyword], by decide, by decide, by decide⟩
  | .binary operator left right => by
    rw [print]
    exact (startsOperand_enclosed (startsOperand_print left)).append (text_ne_equals operator)
  | .call callee positional named => by
    rw [print]
    exact (startsOperand_enclosed (startsOperand_print callee)).append (by decide)
  | .index container position => by
    rw [print]
    exact (startsOperand_enclosed (startsOperand_print container)).append (by decide)
  | .field container name => by
    rw [print]
    exact (startsOperand_enclosed (startsOperand_print container)).append (by decide)
/-! ## Operands -/

theorem stops_closer
    (closer : IsCloser token.type) : Stops context level (token :: rest) :=
  fun _ _ _ _ => parseInfix_closer closer

theorem stops_operator
    (content : token.content = (.operator, operator.text)) (looser : level ≤ operator.precedence) :
    Stops context level (token :: rest) :=
  fun _ _ _ below => parseInfix_stops content (Nat.le_trans below looser)

theorem stops_behindOperand
    (isPostfix : IsPostfix token.type) (looser : level ≤ applyPriority) :
    Stops context level (token :: rest) :=
  fun _ _ _ below => parseInfix_postfix isPostfix (Nat.le_trans below looser)

theorem Stops.mono {tighter : Nat} (stops : Stops context level rest)
    (below : tighter ≤ level) : Stops context tighter rest :=
  fun depth lhs max limit => stops depth lhs max (Nat.le_trans limit below)

theorem unary_lt_precedence (operator : Operator) :
    unaryPriority < operator.precedence ∧ operator.precedence < maxPriority := by
  cases operator <;> decide

theorem loopLevel_lt (tree : OperatorTree) : loopLevel tree < maxPriority := by
  cases tree with
  | binary operator left right => exact (unary_lt_precedence operator).2
  | atom _ | unary _ _ => exact succ_pos _
  | _ => exact (by decide : applyPriority < maxPriority)

theorem loopLevel_le (tree : OperatorTree) : loopLevel tree ≤ tree.level := by
  cases tree with
  | atom _ | unary _ _ => exact Nat.zero_le _
  | _ => exact le_rfl

variable {callee right tree : OperatorTree}

theorem Reads.stop (reads : Reads context tree) (printed : front.map Token.content = tree.print)
    (more : rest ≠ [])
    (opens : loopLevel tree < max) (stops : Stops context tree.level rest)
    (stopsHere : Stops context max rest)
    (enough : 3 * (front.length + rest.length) + 2 ≤ depth) :
    Follows (parsed tree) (fun node => .ok (node, rest)) (parse context depth max (front ++ rest)) := by
  obtain ⟨depth', enough', follows⟩ := reads front rest depth max printed more opens stops enough
  obtain ⟨depth', rfl⟩ : ∃ less, depth' = less + 1 := ⟨depth' - 1, by omega⟩
  exact follows.congr fun node => stopsHere depth' node max le_rfl

theorem Reads.closed {tree : OperatorTree} (reads : Reads context tree) {front rest : List Token}
    {depth : Nat} {close : Token} (printed : front.map Token.content = tree.print)
    (closer : IsCloser close.type) (enough : 3 * (front.length + 1 + rest.length) + 2 ≤ depth) :
    Follows (parsed tree) (fun node => .ok (node, close :: rest))
      (parse context depth maxPriority (front ++ close :: rest)) :=
  reads.stop printed (cons_ne_nil _ _) (loopLevel_lt tree) (stops_closer closer)
    (stops_closer closer) (by rw [length_cons]; omega)

theorem split_parens
    (printed : front.map Token.content = (.parenL, lit "(") :: (text ++ [(.parenR, lit ")")])) :
    ∃ opening inside close, front = opening :: (inside ++ [close]) ∧
      opening.content = (.parenL, lit "(") ∧ inside.map Token.content = text ∧
      close.type = .parenR := by
  obtain ⟨opening, behind, rfl, open', printed⟩ := map_eq_cons_iff.mp printed
  obtain ⟨inside, last, rfl, inner, printed⟩ := map_eq_append_iff.mp printed
  obtain ⟨close, rfl, close'⟩ := map_eq_singleton_iff.mp printed
  exact ⟨opening, inside, close, rfl, open', inner, (token_of_content close').1⟩

theorem parse_parens {tree : OperatorTree} (reads : Reads context tree) {front rest : List Token}
    {depth max : Nat}
    (printed : front.map Token.content = (.parenL, lit "(") :: (tree.print ++ [(.parenR, lit ")")]))
    (enough : 3 * (front.length + rest.length) + 2 ≤ depth) :
    ∃ depth', 3 * rest.length + 1 ≤ depth' ∧
      Follows (parsed tree) (fun node => parseInfix context depth' node max rest)
        (parse context depth max (front ++ rest)) := by
  obtain ⟨opening, inside, close, rfl, opens, inner, closes⟩ := split_parens printed
  rw [length_cons, length_append, length_singleton] at enough
  obtain ⟨depth, rfl⟩ : ∃ less, depth = less + 2 := ⟨depth - 2, by omega⟩
  refine ⟨depth + 1, by omega, ?_⟩
  rw [cons_append, parse_operand (by rw [(token_of_content opens).1]; simp [IsKeyword])]
  apply Follows.bind
  rw [parseSimple_paren opens, append_assoc, singleton_append]
  have body : Follows (parsed tree) (fun node => .ok (node, close :: rest))
      (parse context depth maxPriority (inside ++ close :: rest)) :=
    reads.closed inner (.inl closes) (by omega)
  exact (Follows.bind body).congr fun node => bind_ok (popCheck_cons closes)
theorem parse_enclosed {tree : OperatorTree} (reads : Reads context tree) {front rest : List Token}
    {depth max limit : Nat}
    (printed : front.map Token.content = enclosed limit tree.level tree.print) (more : rest ≠ [])
    (opens : tree.level ≤ limit → loopLevel tree < max) (stops : Stops context limit rest)
    (enough : 3 * (front.length + rest.length) + 2 ≤ depth) :
    ∃ depth', 3 * rest.length + 1 ≤ depth' ∧
      Follows (parsed tree) (fun node => parseInfix context depth' node max rest)
        (parse context depth max (front ++ rest)) := by
  unfold enclosed at printed
  split at printed
  case isTrue within =>
    exact reads front rest depth max printed more (opens within) (stops.mono within) enough
  case isFalse => exact parse_parens reads printed enough

theorem parse_enclosed_stop (reads : Reads context tree)
    (printed : front.map Token.content = enclosed limit tree.level tree.print) (more : rest ≠ [])
    (opens : tree.level ≤ limit → loopLevel tree < max) (stops : Stops context limit rest)
    (stopsHere : Stops context max rest)
    (enough : 3 * (front.length + rest.length) + 2 ≤ depth) :
    Follows (parsed tree) (fun node => .ok (node, rest))
      (parse context depth max (front ++ rest)) := by
  obtain ⟨depth', enough', follows⟩ := parse_enclosed reads printed more opens stops enough
  obtain ⟨depth', rfl⟩ : ∃ less, depth' = less + 1 := ⟨depth' - 1, by omega⟩
  exact follows.congr fun node => stopsHere depth' node max le_rfl

/-! ## Arguments -/

/-- The tokens of an argument, and its name and node. -/
def IsArgument (context : Context) (text : List Content) (found : Option Str × Option Node) : Prop :=
  ∃ tree, Reads context tree ∧ found.2 = parsed tree ∧
    text = (match found.1 with
      | none => tree.print
      | some name => (.identifier, name) :: (.operator, lit "=") :: tree.print)

theorem parseName_positional {first next : Token} {rest : List Token}
    (noEquals : next.content ≠ (.operator, lit "=")) :
    ∃ text, parseName first (first :: next :: rest) = .ok ((none, text), first :: next :: rest) := by
  rw [parseName]
  split
  · rw [bind_ok (rfl : peekNext _ = .ok (next, _)), if_neg]
    · exact ⟨_, rfl⟩
    · rintro ⟨type, value⟩
      exact noEquals (Prod.ext type value)
  · exact ⟨_, rfl⟩

theorem parseName_named {first : Token}
    (identifier : first.type = .identifier) (equals : next.content = (.operator, lit "=")) :
    parseName first (first :: next :: rest) = .ok ((some first.value, first.value), rest) := by
  rw [parseName, if_pos (.inl identifier), bind_ok (rfl : peekNext _ = .ok (next, _)),
    if_pos (token_of_content equals)]
  rfl

theorem parse_argument {text : List Content} {found : Option Str × Option Node}
    (argument : IsArgument context text found) {front rest : List Token} {close : Token}
    {depth : Nat} (printed : front.map Token.content = text) (closer : IsCloser close.type)
    (enough : 3 * (front.length + 1 + rest.length) + 2 ≤ depth) :
    ∃ next behind, front ++ close :: rest = next :: behind ∧ next.type ≠ .parenR ∧
      ∃ word inside, parseName next (next :: behind) = .ok ((found.1, word), inside) ∧
        Follows found.2 (fun node => .ok (node, close :: rest))
          (parse context depth maxPriority inside) := by
  obtain ⟨name, node⟩ := found
  obtain ⟨tree, reads, rfl, rfl⟩ := argument
  cases name with
  | none =>
    obtain ⟨first, more, shape, isStart, noEquals⟩ := startsOperand_print tree
    have follows := @Reads.closed _ _ reads front rest depth close printed closer enough
    simp only at printed
    rw [shape] at printed
    obtain ⟨next, behind, rfl, content, printed⟩ := map_eq_cons_iff.mp printed
    have later : ∃ second last, behind ++ close :: rest = second :: last ∧
        second.content ≠ (.operator, lit "=") := by
      cases behind with
      | nil =>
        refine ⟨close, rest, rfl, fun equals => ?_⟩
        rcases closer with same | same | same <;>
          rw [(token_of_content equals).1] at same <;> cases same
      | cons second last =>
        refine ⟨second, _, rfl, fun equals => noEquals ?_⟩
        rw [← printed, map_cons, List.head?_cons, equals]
    obtain ⟨second, last, shape', noEquals'⟩ := later
    obtain ⟨word, named⟩ := @parseName_positional next second last noEquals'
    refine ⟨next, second :: last, ?_, ?_, word, next :: second :: last, named, ?_⟩
    · rw [cons_append, shape']
    · rw [(Prod.mk.inj content).1]
      exact isStart.2.1
    · rwa [cons_append, shape'] at follows
  | some name =>
    obtain ⟨next, behind, rfl, content, printed'⟩ := map_eq_cons_iff.mp printed
    obtain ⟨second, inside, rfl, content', operand⟩ := map_eq_cons_iff.mp printed'
    obtain ⟨identifier, rfl⟩ := token_of_content content
    refine ⟨next, second :: (inside ++ close :: rest), rfl, ?_, next.value, _,
      parseName_named identifier content', ?_⟩
    · rw [identifier]
      decide
    · simp only [length_cons] at enough
      exact reads.closed operand closer (by omega)
theorem IsArgument.ne_nil {found : Option Str × Option Node}
    (argument : IsArgument context text found) : text ≠ [] := by
  obtain ⟨name, node⟩ := found
  obtain ⟨tree, -, -, rfl⟩ := argument
  cases name with
  | none =>
    obtain ⟨first, more, same, -⟩ := startsOperand_print tree
    simp [same]
  | some name => exact cons_ne_nil _ _

theorem parseArgs_argument {first gotComma : Bool}
    {behind inside : List Token} {name : Option Str} {word : Str}
    (goes : first = true ∨ gotComma = true) (noEnd : next.type ≠ .parenR)
    (named : parseName next (next :: behind) = .ok ((name, word), inside)) :
    (callParams <$> parseArgs context (depth + 1) first gotComma) (next :: behind) =
      (parse context depth maxPriority >>= fun node => skipComma >>= fun gotComma =>
        callParams <$> parseArgs context depth false gotComma >>= fun params =>
          pure ((name, node) :: params)) inside := by
  have noComplaint : ¬(!first && !gotComma) = true := by
    rcases goes with rfl | rfl <;> simp
  rw [parseArgs, map_bind, bind_ok (rfl : peek _ = .ok (next, _)), if_neg noEnd,
    if_neg noComplaint, map_bind, bind_ok named]
  simp only [map_bind, bind_map_left, map_pure, callParams, map_cons]

theorem parse_arguments {texts : List (List Content)} {founds : List (Option Str × Option Node)}
    (arguments : Forall₂ (IsArgument context) texts founds) :
    ∀ {front rest : List Token} {close : Token} {depth : Nat} {first gotComma : Bool},
      front.map Token.content = joined texts → close.type = .parenR →
      (texts = [] ∨ first = true ∨ gotComma = true) →
      3 * (front.length + 1 + rest.length) + 3 ≤ depth →
      Follows (together founds) (fun params => .ok (params, close :: rest))
        ((callParams <$> parseArgs context depth first gotComma) (front ++ close :: rest)) := by
  induction arguments with
  | nil =>
    intro front rest close depth first gotComma printed closes _ enough
    obtain rfl := List.map_eq_nil_iff.mp printed
    obtain ⟨depth, rfl⟩ : ∃ less, depth = less + 1 := ⟨depth - 1, by omega⟩
    rw [parseArgs, map_bind, nil_append, bind_ok (rfl : peek _ = .ok (close, _)), if_pos closes]
    rfl
  | @cons text found texts founds argument _ ih =>
    intro front rest close depth first gotComma printed closes goes enough
    obtain ⟨depth, rfl⟩ : ∃ less, depth = less + 1 := ⟨depth - 1, by omega⟩
    -- the argument ends at the parenthesis or at a comma
    obtain ⟨here, ender, later, split, printedHere, closer, fewer, goesOn⟩ :
        ∃ here ender later, front ++ close :: rest = here ++ ender :: later ∧
          here.map Token.content = text ∧ IsCloser ender.type ∧
          here.length + 1 + later.length = front.length + 1 + rest.length ∧
          Follows (together founds) (fun params => .ok (params, close :: rest))
            ((skipComma >>= fun gotComma => callParams <$> parseArgs context depth false gotComma)
              (ender :: later)) := by
      cases texts with
      | nil =>
        have some := List.length_pos_iff.mpr argument.ne_nil
        rw [← (show front.map Token.content = text from printed), length_map] at some
        refine ⟨front, close, rest, rfl, printed, .inl closes, rfl, ?_⟩
        have noComma : skipComma (close :: rest) = .ok (false, close :: rest) := by
          rw [skipComma, bind_ok (rfl : peek _ = .ok (close, _)), if_neg (by rw [closes]; decide)]
          rfl
        rw [bind_ok noComma]
        exact @ih [] rest close depth false false rfl closes (.inl rfl) (by simp only [length_nil]; omega)
      | cons next texts =>
        obtain ⟨here, behind, rfl, printedHere, printed⟩ := map_eq_append_iff.mp printed
        obtain ⟨comma, more, rfl, content, printedMore⟩ := map_eq_cons_iff.mp printed
        have isComma := (token_of_content content).1
        simp only [length_append, length_cons] at enough ⊢
        refine ⟨here, comma, more ++ close :: rest, by simp, printedHere, .inr (.inr isComma),
          by simp only [length_append, length_cons]; omega, ?_⟩
        have skips : skipComma (comma :: (more ++ close :: rest)) =
            .ok (true, more ++ close :: rest) := by
          rw [skipComma, bind_ok (rfl : peek _ = .ok (comma, _)), if_pos isComma]
          rfl
        rw [bind_ok skips]
        exact ih printedMore closes (.inr (.inr rfl)) (by omega)
    obtain ⟨next, behind, shape, noEnd, word, inside, named, follows⟩ :=
      @parse_argument context text found argument here later ender depth printedHere closer (by omega)
    rw [split, shape, parseArgs_argument (goes.resolve_left (cons_ne_nil _ _)) noEnd named]
    refine (Follows.bind follows).trans fun node _ => ?_
    rw [← bind_assoc]
    exact (Follows.bind goesOn).map fun params _ => rfl
variable {params params' : List (Option Str × Node)}

theorem positionalBehindNamed_named (named : List (Str × OperatorTree)) (gotNamed : Bool)
    (found : together (parsedNamed named) = some params) :
    positionalBehindNamed gotNamed params = false := by
  induction named generalizing gotNamed params with
  | nil =>
    cases found
    rfl
  | cons argument rest ih =>
    obtain ⟨name, argument⟩ := argument
    obtain ⟨node, -, more⟩ := bind_eq_some_iff.mp found
    obtain ⟨others, same, rfl⟩ := map_eq_some_iff.mp more
    exact ih true same

theorem positionalBehindNamed_parsed (positional : List OperatorTree)
    (named : List (Str × OperatorTree))
    (found : together (parsedPositional positional ++ parsedNamed named) = some params) :
    positionalBehindNamed false params = false := by
  induction positional generalizing params with
  | nil => exact positionalBehindNamed_named named false found
  | cons argument rest ih =>
    obtain ⟨node, -, more⟩ := bind_eq_some_iff.mp found
    obtain ⟨others, same, rfl⟩ := map_eq_some_iff.mp more
    have behind : positionalBehindNamed false others = false := ih same
    exact behind

/-! ## Trees -/

theorem loopLevel_lt_unary (within : tree.level ≤ unaryPriority) :
    loopLevel tree < unaryPriority := by
  cases tree with
  | binary operator left right =>
    exact absurd (unary_lt_precedence operator).1 (Nat.not_lt.mpr within)
  | atom _ | unary _ _ => exact succ_pos _
  | _ => exact (by decide : applyPriority < unaryPriority)

theorem loopLevel_lt_right
    (within : right.level ≤ operator.precedence - 1) : loopLevel right < operator.precedence := by
  have positive := Nat.zero_lt_of_lt (unary_lt_precedence operator).1
  exact Nat.lt_of_le_of_lt (Nat.le_trans (loopLevel_le right) within)
    (Nat.sub_one_lt (Nat.ne_of_gt positive))

theorem parse_atom {operand : Atom} {front rest : List Token} {depth max : Nat}
    (printed : front.map Token.content = print (.atom operand))
    (enough : 3 * (front.length + rest.length) + 2 ≤ depth) :
    ∃ depth', 3 * rest.length + 1 ≤ depth' ∧
      parse context depth max (front ++ rest) =
        parseInfix context depth' operand.node max rest := by
  obtain ⟨token, rfl, content⟩ := map_eq_singleton_iff.mp printed
  rw [length_singleton] at enough
  obtain ⟨depth, rfl⟩ : ∃ less, depth = less + 2 := ⟨depth - 2, by omega⟩
  have noKeyword := (isStart_content operand).1
  rw [← show token.content = operand.content from content] at noKeyword
  refine ⟨depth + 1, by omega, ?_⟩
  rw [singleton_append, parse_operand noKeyword, bind_ok (parseSimple_atom content)]

theorem parse_unary {operator : UnaryOperation} {operand : OperatorTree} {front rest : List Token}
    {depth max : Nat} (printed : front.map Token.content = print (.unary operator operand))
    (enough : 3 * (front.length + rest.length) + 2 ≤ depth) :
    ∃ inside depth', inside.map Token.content =
        enclosed unaryPriority operand.level operand.print ∧
      3 * (inside.length + rest.length) + 2 ≤ depth' ∧
      parse context depth max (front ++ rest) =
        ((fun operand => .unary operator operand (some operator.valueType)) <$>
            parse context depth' unaryPriority >>= fun node =>
          parseInfix context (depth' + 1) node max) (inside ++ rest) := by
  obtain ⟨token, inside, rfl, content, printed⟩ := map_eq_cons_iff.mp printed
  rw [length_cons] at enough
  obtain ⟨depth, rfl⟩ : ∃ less, depth = less + 2 := ⟨depth - 2, by omega⟩
  refine ⟨inside, depth, printed, by omega, ?_⟩
  rw [cons_append, parse_operand (by rw [(token_of_content content).1]; simp [IsKeyword])]
  show (_ >>= _ : Except ParseError _) = (_ >>= _ : Except ParseError _)
  rw [parseSimple_unary content]
  rfl

theorem parse_binary {operator : Operator} {left right : OperatorTree} (reads : Reads context left)
    {front rest : List Token} {depth max : Nat}
    (printed : front.map Token.content = print (.binary operator left right))
    (opens : operator.precedence < max)
    (enough : 3 * (front.length + rest.length) + 2 ≤ depth) :
    ∃ rights depth', rights.map Token.content =
        enclosed (operator.precedence - 1) right.level right.print ∧
      3 * (rights.length + rest.length) + 2 ≤ depth' ∧
      Follows (parsed left) (fun lhs =>
          (parse context depth' operator.precedence >>= fun rhs =>
            parseInfix context depth' (operator.node lhs rhs) max) (rights ++ rest))
        (parse context depth max (front ++ rest)) := by
  rw [print] at printed
  obtain ⟨lefts, behind, rfl, printedLeft, printed⟩ := map_eq_append_iff.mp printed
  obtain ⟨token, rights, rfl, content, printedRight⟩ := map_eq_cons_iff.mp printed
  simp only [length_append, length_cons] at enough
  obtain ⟨depth', enough', follows⟩ := @parse_enclosed context left reads lefts
    (token :: (rights ++ rest)) depth max operator.precedence printedLeft (cons_ne_nil _ _)
    (fun within => Nat.lt_of_le_of_lt (Nat.le_trans (loopLevel_le left) within) opens)
    (stops_operator content le_rfl)
    (by simp only [length_cons, length_append]; omega)
  simp only [length_append, length_cons] at enough'
  obtain ⟨depth', rfl⟩ : ∃ less, depth' = less + 1 := ⟨depth' - 1, by omega⟩
  refine ⟨rights, depth', printedRight, by omega, ?_⟩
  rw [append_assoc, cons_append]
  refine follows.congr fun node => ?_
  obtain ⟨first, more, starts, -⟩ :=
    @startsOperand_enclosed (operator.precedence - 1) right.level _ (startsOperand_print right)
  obtain ⟨next, later, rfl, -⟩ := map_eq_cons_iff.mp (printedRight.trans starts)
  exact parseInfix_binary content opens

theorem parse_container {container : OperatorTree} (reads : Reads context container)
    {inside rest : List Token} {token : Token} {depth max : Nat}
    (printed : inside.map Token.content = enclosed applyPriority container.level container.print)
    (isPostfix : IsPostfix token.type) (opens : applyPriority < max)
    (enough : 3 * (inside.length + 1 + rest.length) + 2 ≤ depth) :
    ∃ depth', 3 * rest.length + 3 ≤ depth' ∧
      Follows (parsed container)
        (fun node => parseInfix context (depth' + 1) node max (token :: rest))
        (parse context depth max (inside ++ token :: rest)) := by
  obtain ⟨depth', enough', follows⟩ := @parse_enclosed context container reads inside
    (token :: rest) depth max applyPriority printed (cons_ne_nil _ _)
    (fun within => Nat.lt_of_le_of_lt (Nat.le_trans (loopLevel_le container) within) opens)
    (stops_behindOperand isPostfix le_rfl) (by rw [length_cons]; omega)
  rw [length_cons] at enough'
  obtain ⟨depth', rfl⟩ : ∃ less, depth' = less + 1 := ⟨depth' - 1, by omega⟩
  exact ⟨depth', by omega, follows⟩

theorem parse_field {container : OperatorTree} {name : Str} (reads : Reads context container)
    {front rest : List Token} {depth max : Nat}
    (printed : front.map Token.content = print (.field container name))
    (opens : applyPriority < max) (enough : 3 * (front.length + rest.length) + 2 ≤ depth) :
    ∃ depth', 3 * rest.length + 1 ≤ depth' ∧
      Follows (parsed (.field container name)) (fun node => parseInfix context depth' node max rest)
        (parse context depth max (front ++ rest)) := by
  rw [print] at printed
  obtain ⟨inside, behind, rfl, printedInside, printed⟩ := map_eq_append_iff.mp printed
  obtain ⟨dot, last, rfl, contentDot, printed⟩ := map_eq_cons_iff.mp printed
  obtain ⟨word, rfl, contentWord⟩ := map_eq_singleton_iff.mp printed
  obtain ⟨isDot, -⟩ := token_of_content contentDot
  obtain ⟨identifier, rfl⟩ := token_of_content contentWord
  simp only [length_append, length_cons, length_nil] at enough
  obtain ⟨depth', enough', follows⟩ := @parse_container context container reads inside
    (word :: rest) dot depth max printedInside (.inr (.inr isDot)) opens
    (by rw [length_cons]; omega)
  rw [length_cons] at enough'
  refine ⟨depth', by omega, ?_⟩
  rw [append_assoc, cons_append, singleton_append]
  exact follows.map fun node _ => parseInfix_field isDot identifier opens

theorem parse_call {callee : OperatorTree} {positional : List OperatorTree}
    {named : List (Str × OperatorTree)} (reads : Reads context callee)
    (arguments : Forall₂ (IsArgument context) (printPositional positional ++ printNamed named)
      (parsedPositional positional ++ parsedNamed named))
    {front rest : List Token} {depth max : Nat}
    (printed : front.map Token.content = print (.call callee positional named))
    (opens : applyPriority < max) (enough : 3 * (front.length + rest.length) + 2 ≤ depth) :
    ∃ close depth', close.type = .parenR ∧ 3 * rest.length + 1 ≤ depth' ∧
      Follows (parsed (.call callee positional named)) (fun node =>
          (closeCall >>= fun _ => peek >>= fun _ => parseInfix context depth' node max)
            (close :: rest))
        (parse context depth max (front ++ rest)) := by
  rw [print] at printed
  obtain ⟨inside, behind, rfl, printedInside, printed⟩ := map_eq_append_iff.mp printed
  obtain ⟨opening, behind, rfl, contentOpening, printed⟩ := map_eq_cons_iff.mp printed
  obtain ⟨params, last, rfl, printedParams, printed⟩ := map_eq_append_iff.mp printed
  obtain ⟨close, rfl, contentClose⟩ := map_eq_singleton_iff.mp printed
  obtain ⟨isOpening, -⟩ := token_of_content contentOpening
  obtain ⟨closes, -⟩ := token_of_content contentClose
  simp only [length_append, length_cons, length_nil] at enough
  obtain ⟨depth', enough', follows⟩ := @parse_container context callee reads inside
    (params ++ close :: rest) opening depth max printedInside (.inl isOpening) opens
    (by simp only [length_append, length_cons]; omega)
  simp only [length_append, length_cons] at enough'
  refine ⟨close, depth', closes, by omega, ?_⟩
  have shape : inside ++ opening :: (params ++ [close]) ++ rest =
      inside ++ opening :: (params ++ close :: rest) := by simp
  rw [shape]
  refine follows.trans fun node _ => ?_
  obtain ⟨next, later, shape'⟩ := List.exists_cons_of_ne_nil
    (List.append_ne_nil_of_right_ne_nil params (cons_ne_nil close rest))
  rw [shape', parseInfix_call isOpening opens, ← shape']
  have followsParams := @parse_arguments context _ _ arguments params rest close depth' true false
    printedParams closes (.inr (.inl rfl)) (by omega)
  refine (Follows.bind followsParams).map fun found same => ?_
  rw [positionalBehindNamed_parsed positional named same]
  rfl

theorem startsSlice_iff
    (printed : (token :: rest).map Token.content = text) :
    startsSlice text = true ↔ token.value = lit ":" ∨ token.value = lit "::" := by
  subst printed
  simp [startsSlice, Token.content]

theorem parse_index {container position : OperatorTree} (readsContainer : Reads context container)
    (readsPosition : Reads context position) {front rest : List Token} {depth max : Nat}
    (printed : front.map Token.content = print (.index container position))
    (opens : applyPriority < max) (enough : 3 * (front.length + rest.length) + 2 ≤ depth) :
    ∃ depth', 3 * rest.length + 1 ≤ depth' ∧
      Follows (parsed (.index container position))
        (fun node => (peek >>= fun _ => parseInfix context depth' node max) rest)
        (parse context depth max (front ++ rest)) := by
  rw [print] at printed
  obtain ⟨inside, behind, rfl, printedInside, printed⟩ := map_eq_append_iff.mp printed
  obtain ⟨opening, behind, rfl, contentOpening, printed⟩ := map_eq_cons_iff.mp printed
  obtain ⟨within, last, rfl, printedWithin, printed⟩ := map_eq_append_iff.mp printed
  obtain ⟨close, rfl, contentClose⟩ := map_eq_singleton_iff.mp printed
  obtain ⟨isOpening, -⟩ := token_of_content contentOpening
  obtain ⟨closes, -⟩ := token_of_content contentClose
  simp only [length_append, length_cons, length_nil] at enough
  obtain ⟨depth', enough', follows⟩ := @parse_container context container readsContainer inside
    (within ++ close :: rest) opening depth max printedInside (.inr (.inl isOpening)) opens
    (by simp only [length_append, length_cons]; omega)
  simp only [length_append, length_cons] at enough'
  refine ⟨depth', by omega, ?_⟩
  have shape : inside ++ opening :: (within ++ [close]) ++ rest =
      inside ++ opening :: (within ++ close :: rest) := by simp
  rw [shape]
  refine follows.trans fun node _ => ?_
  obtain ⟨first, words, starts, isStart, -⟩ := startsOperand_print position
  obtain ⟨next, later, rfl, content, -⟩ := map_eq_cons_iff.mp (printedWithin.trans starts)
  have noBrace : next.type ≠ .braceR := by
    rw [show next.type = first.1 from congrArg fst content]
    exact isStart.2.2.1
  have slice := startsSlice_iff printedWithin
  rw [cons_append, parseInfix_index isOpening noBrace opens]
  by_cases isSlice : startsSlice position.print = true
  · rw [if_pos (slice.mp isSlice), if_pos isSlice]
    exact Follows.error
  · rw [if_neg (fun colon => isSlice (slice.mpr colon)), if_neg isSlice, ← cons_append]
    have followsPosition : Follows (parsed position) (fun node => .ok (node, close :: rest))
        (parse context depth' maxPriority (next :: later ++ close :: rest)) :=
      readsPosition.closed printedWithin (.inr (.inl closes)) (by omega)
    refine (Follows.bind followsPosition).map fun target _ => ?_
    rw [bind_ok (rfl : peek _ = .ok (close, _)), if_neg (not_not_intro closes)]
    exact bind_ok rfl

/-! ## Trees in front of more tokens -/

theorem reads_unary (operator : UnaryOperation) {operand : OperatorTree}
    (reads : Reads context operand) : Reads context (.unary operator operand) := by
  intro front rest depth max printed more _ stops enough
  obtain ⟨inside, depth', printedInside, enough', same⟩ :=
    @parse_unary context operator operand front rest depth max printed enough
  have follows := parse_enclosed_stop reads printedInside more loopLevel_lt_unary stops stops enough'
  refine ⟨depth' + 1, by omega, ?_⟩
  rw [same, bind_map_left]
  exact (Follows.bind follows).map fun _ _ => rfl

theorem reads_binary (operator : Operator) {left : OperatorTree}
    (readsLeft : Reads context left) (readsRight : Reads context right) :
    Reads context (.binary operator left right) := by
  intro front rest depth max printed more opens stops enough
  obtain ⟨rights, depth', printedRight, enough', follows⟩ :=
    parse_binary readsLeft printed opens enough
  have followsRight := parse_enclosed_stop readsRight printedRight more loopLevel_lt_right
    (stops.mono (Nat.sub_le _ 1)) stops enough'
  refine ⟨depth', by omega, follows.trans fun lhs _ => ?_⟩
  exact (Follows.bind followsRight).map fun _ _ => rfl

theorem closeCall_cons {close : Token} (closes : close.type = .parenR)
    (more : rest ≠ []) : closeCall (close :: rest) = .ok ((), rest) := by
  have several : (close :: rest).length ≥ 2 := by
    rw [length_cons]
    exact Nat.succ_le_succ (List.length_pos_iff.mpr more)
  rw [closeCall, bind_ok (rfl : size _ = .ok (_, _)), if_pos several, bind_ok (popCheck_cons closes)]
  rfl

theorem peek_ok (more : rest ≠ []) : ∃ token, peek rest = .ok (token, rest) := by
  obtain ⟨token, later, rfl⟩ := List.exists_cons_of_ne_nil more
  exact ⟨token, rfl⟩

mutual
theorem reads_print : ∀ tree : OperatorTree, Reads context tree
  | .atom operand => fun _ _ _ _ printed _ _ _ enough => parse_atom printed enough
  | .unary operator operand => reads_unary operator (reads_print operand)
  | .binary operator left right => reads_binary operator (reads_print left) (reads_print right)
  | .field container name => fun _ _ _ _ printed _ opens _ enough =>
    parse_field (reads_print container) printed opens enough
  | .index container position => by
    intro front rest depth max printed more opens _ enough
    obtain ⟨depth', enough', follows⟩ :=
      parse_index (reads_print container) (reads_print position) printed opens enough
    obtain ⟨token, looks⟩ := peek_ok more
    exact ⟨depth', enough', follows.congr fun _ => bind_ok looks⟩
  | .call callee positional named => by
    intro front rest depth max printed more opens _ enough
    obtain ⟨close, depth', closes, enough', follows⟩ := parse_call (reads_print callee)
      (List.rel_append (isArgument_positional positional) (isArgument_named named)) printed opens
      enough
    obtain ⟨token, looks⟩ := peek_ok more
    exact ⟨depth', enough', follows.congr fun _ =>
      (bind_ok (closeCall_cons closes more)).trans (bind_ok looks)⟩

theorem isArgument_positional : ∀ positional : List OperatorTree,
    Forall₂ (IsArgument context) (printPositional positional) (parsedPositional positional)
  | [] => .nil
  | argument :: rest =>
    .cons ⟨argument, reads_print argument, rfl, rfl⟩ (isArgument_positional rest)

theorem isArgument_named : ∀ named : List (Str × OperatorTree),
    Forall₂ (IsArgument context) (printNamed named) (parsedNamed named)
  | [] => .nil
  | (_, argument) :: rest =>
    .cons ⟨argument, reads_print argument, rfl, rfl⟩ (isArgument_named rest)
end

/-! ## The end of the tokens -/

/-- The last token of an expression is the bracket of an index. -/
def endsInIndex : OperatorTree → Bool
  | .index _ _ => true
  | .unary _ operand => decide (operand.level ≤ unaryPriority) && endsInIndex operand
  | .binary operator _ right =>
    decide (right.level ≤ operator.precedence - 1) && endsInIndex right
  | _ => false

/-- The node that the parser makes of an expression at the end of the tokens. -/
def ended (tree : OperatorTree) : Option Node := if endsInIndex tree then none else parsed tree

/-- All tokens of an expression are read, but for the parenthesis of a call. -/
def Ends (context : Context) (tree : OperatorTree) : Prop :=
  ∀ front depth max, front.map Token.content = tree.print → loopLevel tree < max →
    3 * front.length + 2 ≤ depth →
    ∃ rest, rest.length < 2 ∧
      Follows (ended tree) (fun node => .ok (node, rest)) (parse context depth max front)

/-- A call. -/
def isCall : OperatorTree → Bool
  | .call _ _ _ => true
  | _ => false

mutual
/-- No call is called, and no index starts like a slice. -/
def isPlain : OperatorTree → Bool
  | .atom _ => true
  | .unary _ operand => isPlain operand
  | .binary _ left right => isPlain left && isPlain right
  | .call callee positional named =>
    !isCall callee && isPlain callee && (isPlainPositional positional && isPlainNamed named)
  | .index container position =>
    isPlain container && (!startsSlice position.print && isPlain position)
  | .field container _ => isPlain container

/-- Positional arguments without called calls and slices. -/
def isPlainPositional : List OperatorTree → Bool
  | [] => true
  | argument :: rest => isPlain argument && isPlainPositional rest

/-- Named arguments without called calls and slices. -/
def isPlainNamed : List (Str × OperatorTree) → Bool
  | [] => true
  | (_, argument) :: rest => isPlain argument && isPlainNamed rest
end

/-- How often the target of a call is a call again. -/
def spine : Node → Nat
  | .callExpr target _ => spine target + 1
  | _ => 0

theorem spine_makeCall {callee : Node} (short : spine callee ≤ 1)
    (params : List (Option Str × Node)) : spine (makeCall callee params) ≤ 1 := by
  cases callee with
  | callExpr target _ => exact short
  | callName _ _ | callBuiltin _ _ => exact Nat.zero_le 1
  | _ => exact le_rfl

theorem spine_parsed : ∀ (tree : OperatorTree) {node : Node}, parsed tree = some node →
    spine node ≤ 1
  | .atom operand, node, found => by
    cases found
    cases operand <;> exact Nat.zero_le 1
  | .unary operator operand, node, found => by
    obtain ⟨inner, -, rfl⟩ := map_eq_some_iff.mp found
    exact Nat.zero_le 1
  | .binary operator left right, node, found => by
    obtain ⟨lhs, -, found⟩ := bind_eq_some_iff.mp found
    obtain ⟨rhs, -, rfl⟩ := map_eq_some_iff.mp found
    cases operator <;> exact Nat.zero_le 1
  | .call callee positional named, node, found => by
    obtain ⟨target, foundCallee, found⟩ := bind_eq_some_iff.mp found
    obtain ⟨params, -, rfl⟩ := map_eq_some_iff.mp found
    exact spine_makeCall (spine_parsed callee foundCallee) params
  | .index container position, node, found => by
    obtain ⟨inner, -, found⟩ := bind_eq_some_iff.mp found
    split at found
    · cases found
    · obtain ⟨index, -, rfl⟩ := map_eq_some_iff.mp found
      exact Nat.zero_le 1
  | .field container name, node, found => by
    obtain ⟨inner, -, rfl⟩ := map_eq_some_iff.mp found
    exact Nat.zero_le 1

theorem node_inj {left right left' right' : Node}
    (same : operator.node left right = operator.node left' right') :
    left = left' ∧ right = right' := by
  cases operator <;> cases same <;> exact ⟨rfl, rfl⟩

theorem together_eq_some {founds : List (Option Str × Option Node)}
    {params : List (Option Str × Node)} :
    together founds = some params ↔ founds = params.map fun param => (param.1, some param.2) := by
  induction founds generalizing params with
  | nil =>
    cases params with
    | nil => simp [together]
    | cons param rest => simp [together]
  | cons found rest ih =>
    obtain ⟨name, node⟩ := found
    cases params with
    | nil => cases node <;> cases together rest <;> simp [together]
    | cons param params =>
      obtain ⟨name', node'⟩ := param
      cases node with
      | none => simp [together]
      | some node =>
        simp only [together, bind_some, map_eq_some_iff, List.cons.injEq, Prod.mk.injEq,
          map_cons, some.injEq, ← ih]
        constructor
        · rintro ⟨others, found, ⟨rfl, rfl⟩, rfl⟩
          exact ⟨⟨rfl, rfl⟩, found⟩
        · rintro ⟨⟨rfl, rfl⟩, found⟩
          exact ⟨params, found, ⟨rfl, rfl⟩, rfl⟩
theorem together_append {founds founds' : List (Option Str × Option Node)}
    (lengths : founds.length = params.length) :
    together (founds ++ founds') = some (params ++ params') ↔
      together founds = some params ∧ together founds' = some params' := by
  rw [together_eq_some, together_eq_some, together_eq_some, map_append]
  constructor
  · intro same
    exact List.append_inj same (by rw [lengths, length_map])
  · rintro ⟨rfl, rfl⟩
    rfl

theorem together_cons {name : Option Str} {found : Option Node} {node : Node}
    {founds : List (Option Str × Option Node)} :
    together ((name, found) :: founds) = some ((name, node) :: params) ↔
      found = some node ∧ together founds = some params := by
  rw [together_eq_some, together_eq_some, map_cons, List.cons.injEq, Prod.mk.injEq]
  exact and_congr_left' (and_iff_right rfl)

theorem length_positional (positional : List OperatorTree) :
    (parsedPositional positional).length = (nodePositional positional).length := by
  induction positional with
  | nil => rfl
  | cons argument rest ih => rw [parsedPositional, nodePositional, length_cons, length_cons, ih]

theorem call_eq_iff (noCall : isCall callee = false)
    (found : parsed callee = some target) :
    makeCall target params = callNode callee callee.node params' ↔
      target = callee.node ∧ params = params' := by
  cases callee with
  | atom operand =>
    cases found
    cases operand <;> simp [makeCall, callNode, Atom.node, node]
  | unary operator operand =>
    obtain ⟨inner, -, rfl⟩ := map_eq_some_iff.mp found
    simp [makeCall, callNode]
  | binary operator left right =>
    obtain ⟨lhs, -, found⟩ := bind_eq_some_iff.mp found
    obtain ⟨rhs, -, rfl⟩ := map_eq_some_iff.mp found
    cases operator <;> simp [makeCall, callNode, Operator.node]
  | call callee positional named => cases noCall
  | index container position =>
    obtain ⟨inner, -, found⟩ := bind_eq_some_iff.mp found
    split at found
    · cases found
    · obtain ⟨index, -, rfl⟩ := map_eq_some_iff.mp found
      simp [makeCall, callNode]
  | field container name =>
    obtain ⟨inner, -, rfl⟩ := map_eq_some_iff.mp found
    simp [makeCall, callNode]

theorem callNode_cases (callee : OperatorTree) (target : Node)
    (params : List (Option Str × Node)) :
    callNode callee target params = .callExpr target params ∨
      ∃ name, callee = .atom (.identifier name) := by
  unfold callNode
  split
  case h_1 name => exact .inr ⟨name, rfl⟩
  case h_2 => exact .inl rfl

theorem called_ne {positional : List OperatorTree}
    {named : List (Str × OperatorTree)}
    (found : parsed (.call callee positional named) = some target)
    (params params' : List (Option Str × Node)) :
    makeCall target params ≠ .callExpr (node (.call callee positional named)) params' := by
  intro same
  rcases callNode_cases callee callee.node (nodePositional positional ++ nodeNamed named) with
    called | ⟨name, rfl⟩
  · -- two calls on the spine, and the parser makes one
    have short := spine_makeCall (spine_parsed _ found) params
    rw [same, node, called] at short
    simp only [spine] at short
    omega
  · obtain ⟨inner, foundCallee, found⟩ := bind_eq_some_iff.mp found
    obtain ⟨own, -, rfl⟩ := map_eq_some_iff.mp found
    cases foundCallee
    cases same

mutual
theorem parsed_eq_node_iff : ∀ tree : OperatorTree,
    parsed tree = some tree.node ↔ isPlain tree = true
  | .atom operand => iff_of_true rfl rfl
  | .unary operator operand => by
    rw [parsed, isPlain, ← parsed_eq_node_iff operand, node, map_eq_some_iff]
    constructor
    · rintro ⟨inner, found, same⟩
      cases same
      exact found
    · intro found
      exact ⟨_, found, rfl⟩
  | .binary operator left right => by
    rw [parsed, isPlain, and_eq_true, ← parsed_eq_node_iff left, ← parsed_eq_node_iff right, node,
      bind_eq_some_iff]
    constructor
    · rintro ⟨lhs, foundLeft, found⟩
      obtain ⟨rhs, foundRight, same⟩ := map_eq_some_iff.mp found
      obtain ⟨rfl, rfl⟩ := node_inj same
      exact ⟨foundLeft, foundRight⟩
    · rintro ⟨foundLeft, foundRight⟩
      exact ⟨_, foundLeft, by rw [foundRight]; rfl⟩
  | .field container name => by
    rw [parsed, isPlain, ← parsed_eq_node_iff container, node, map_eq_some_iff]
    constructor
    · rintro ⟨inner, found, same⟩
      cases same
      exact found
    · intro found
      exact ⟨_, found, rfl⟩
  | .index container position => by
    rw [parsed, isPlain, and_eq_true, and_eq_true, ← parsed_eq_node_iff container,
      ← parsed_eq_node_iff position, node, bind_eq_some_iff, Bool.not_eq_true']
    constructor
    · rintro ⟨inner, foundContainer, found⟩
      split at found
      · cases found
      case isFalse noSlice =>
        obtain ⟨index, foundPosition, same⟩ := map_eq_some_iff.mp found
        cases same
        exact ⟨foundContainer, by simpa using noSlice, foundPosition⟩
    · rintro ⟨foundContainer, noSlice, foundPosition⟩
      exact ⟨_, foundContainer, by rw [if_neg (by simp [noSlice]), foundPosition]; rfl⟩
  | .call callee positional named => by
    rw [parsed, isPlain, and_eq_true, and_eq_true, and_eq_true,
      ← parsed_eq_node_iff callee, ← together_positional_iff positional, ← together_named_iff named,
      ← together_append (length_positional positional), node, bind_eq_some_iff,
      Bool.not_eq_true']
    constructor
    · rintro ⟨target, foundCallee, found⟩
      obtain ⟨params, foundParams, same⟩ := map_eq_some_iff.mp found
      cases noCall : isCall callee with
      | true =>
        cases callee with
        | call => exact absurd same (called_ne foundCallee _ _)
        | _ => cases noCall
      | false =>
        obtain ⟨rfl, rfl⟩ := (call_eq_iff noCall foundCallee).mp same
        exact ⟨⟨rfl, foundCallee⟩, foundParams⟩
    · rintro ⟨⟨noCall, foundCallee⟩, foundParams⟩
      refine ⟨_, foundCallee, ?_⟩
      rw [foundParams]
      exact congrArg some ((call_eq_iff noCall foundCallee).mpr ⟨rfl, rfl⟩)

theorem together_positional_iff : ∀ positional : List OperatorTree,
    together (parsedPositional positional) = some (nodePositional positional) ↔
      isPlainPositional positional = true
  | [] => iff_of_true rfl rfl
  | argument :: rest => by
    rw [parsedPositional, nodePositional, together_cons, isPlainPositional, and_eq_true,
      parsed_eq_node_iff argument, together_positional_iff rest]

theorem together_named_iff : ∀ named : List (Str × OperatorTree),
    together (parsedNamed named) = some (nodeNamed named) ↔ isPlainNamed named = true
  | [] => iff_of_true rfl rfl
  | (name, argument) :: rest => by
    rw [parsedNamed, nodeNamed, together_cons, isPlainNamed, and_eq_true,
      parsed_eq_node_iff argument, together_named_iff rest]
end

end Jst.Verif.Precedence
