import EncryptedColumns.Proofs.SqlTokens

/-!
# Templates

A template is SQL text with operands in it. Numbered, it has a placeholder for each
operand, and putting the operands in for the placeholders gives the template again.
-/

namespace EncryptedColumns.Sql

/-- Plain text, or an operand, always as the last argument of a call. -/
inductive Piece where
  | text (s : String)
  | operand (envelope : String)

def Piece.envelope? : Piece → Option String
  | .text _ => none
  | .operand e => some e

def operands (ps : List Piece) : List String :=
  ps.filterMap Piece.envelope?

def numbered : Nat → List Piece → String
  | _, [] => ""
  | n, .text s :: ps => s ++ numbered n ps
  | n, .operand _ :: ps => "$" ++ n.repr ++ ")" ++ numbered (n + 1) ps

theorem operands_append (ps qs : List Piece) : operands (ps ++ qs) = operands ps ++ operands qs :=
  List.filterMap_append

theorem numbered_append : ∀ (n : Nat) (ps qs : List Piece),
    numbered n (ps ++ qs) = numbered n ps ++ numbered (n + (operands ps).length) qs
  | n, [], qs => String.empty_append.symm
  | n, .text s :: ps, qs => by
    rw [List.cons_append, numbered, numbered, numbered_append n ps qs, String.append_assoc]
    rfl
  | n, .operand e :: ps, qs => by
    have hn : n + (operands (.operand e :: ps)).length = n + 1 + (operands ps).length := by
      show n + ((operands ps).length + 1) = _
      omega
    rw [List.cons_append, numbered, numbered, numbered_append (n + 1) ps qs, hn]
    simp only [String.append_assoc]

/-! ## Reading placeholders -/

def Token.digits? : Token → Option String
  | .placeholder digits => some digits
  | _ => none

def placeholders (sql : String) : List String :=
  (tokens sql).filterMap Token.digits?

inductive Filled where
  | token (t : Token)
  | param (text : String)
  deriving DecidableEq

/-- Puts the parameter in for a placeholder, when the parameters are bound from a first number on. -/
def Token.fill (first : Nat) (params : List String) : Token → Option Filled
  | .placeholder digits =>
    let n := Nat.ofDigitChars 10 digits.toList 0
    if first ≤ n then params[n - first]?.map .param else none
  | t => some (.token t)

def Piece.filled : Piece → List Filled
  | .text s => (tokens s).map .token
  | .operand e => [.param e, .token (.symbol ')')]

def HasNoPlaceholder (s : String) : Prop :=
  ∀ t ∈ tokens s, t.digits? = none

instance (s : String) : Decidable (HasNoPlaceholder s) :=
  inferInstanceAs (Decidable (∀ t ∈ tokens s, t.digits? = none))

structure IsFixed (s : String) : Prop where
  endsToken : EndsToken s
  hasNoPlaceholder : HasNoPlaceholder s

def Piece.IsFixed : Piece → Prop
  | .text s => Sql.IsFixed s
  | .operand _ => True

theorem HasNoPlaceholder.append {a b : String} (ha : IsFixed a) (hb : HasNoPlaceholder b) :
    HasNoPlaceholder (a ++ b) := by
  intro t ht
  rw [tokens_append_of_endsToken ha.endsToken, List.mem_append] at ht
  rcases ht with ht | ht
  · exact ha.hasNoPlaceholder t ht
  · exact hb t ht

theorem IsFixed.append {a b : String} (ha : IsFixed a) (hb : IsFixed b) : IsFixed (a ++ b) :=
  ⟨hb.endsToken.append, hb.hasNoPlaceholder.append ha⟩

theorem IsFixed.append_left {a b : String} (ha : HasNoPlaceholder a) (hb : IsFixed b)
    (hs : StartsToken b) : IsFixed (a ++ b) := by
  refine ⟨hb.endsToken.append, fun t ht => ?_⟩
  rw [tokens_append_of_startsToken hs, List.mem_append] at ht
  rcases ht with ht | ht
  · exact ha t ht
  · exact hb.hasNoPlaceholder t ht

/-! ## Templates are read back -/

theorem tokens_operand (n : Nat) (e : String) (ps : List Piece) :
    tokens (numbered n (.operand e :: ps)) =
      .placeholder n.repr :: .symbol ')' :: tokens (numbered (n + 1) ps) := by
  have hparen : EndsToken ")" := by decide
  rw [numbered, tokens_append_of_endsToken hparen.append,
    tokens_append_of_startsToken (by decide), tokens_number]
  rfl

section
variable {ps : List Piece} (h : ∀ p ∈ ps, p.IsFixed)
include h

theorem placeholders_numbered (n : Nat) :
    placeholders (numbered n ps) = (List.range' n (operands ps).length).map Nat.repr := by
  induction ps generalizing n with
  | nil => rfl
  | cons p ps ih =>
    obtain ⟨hp, hps⟩ := List.forall_mem_cons.1 h
    cases p with
    | text s =>
      have hnone : (tokens s).filterMap Token.digits? = [] :=
        List.filterMap_eq_nil_iff.2 fun t ht => hp.hasNoPlaceholder t ht
      rw [placeholders, numbered, tokens_append_of_endsToken hp.endsToken, List.filterMap_append, hnone]
      exact ih hps n
    | operand e =>
      rw [placeholders, tokens_operand]
      show n.repr :: placeholders (numbered (n + 1) ps) = _
      rw [ih hps (n + 1)]
      rfl

theorem fill_numbered (first : Nat) (before after : List String) :
    (tokens (numbered (first + before.length) ps)).map
        (Token.fill first (before ++ operands ps ++ after)) =
      (ps.flatMap Piece.filled).map some := by
  -- operands that have been passed move to `before`, so a number stays a place in the list
  induction ps generalizing before with
  | nil => rfl
  | cons p ps ih =>
    obtain ⟨hp, hps⟩ := List.forall_mem_cons.1 h
    rw [List.flatMap_cons, List.map_append]
    cases p with
    | text s =>
      rw [numbered, tokens_append_of_endsToken hp.endsToken, List.map_append]
      refine congr (congrArg _ ?_) (ih hps before)
      rw [Piece.filled, List.map_map]
      refine List.map_congr_left fun t ht => ?_
      cases t with
      | word | symbol => rfl
      | placeholder digits => exact absurd (hp.hasNoPlaceholder _ ht) (by simp [Token.digits?])
    | operand e =>
      have hfill : Token.fill first (before ++ operands (.operand e :: ps) ++ after)
          (.placeholder (first + before.length).repr) = some (.param e) := by
        simp [Token.fill, operands, Piece.envelope?]
      have ih := ih hps (before ++ [e])
      rw [List.length_append, List.length_singleton, ← Nat.add_assoc, List.append_assoc before] at ih
      rw [tokens_operand, List.map_cons, List.map_cons, hfill]
      show some (Filled.param e) :: some (.token (.symbol ')')) :: _ = _
      rw [← ih]
      rfl

end

end EncryptedColumns.Sql
