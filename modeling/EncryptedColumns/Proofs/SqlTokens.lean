import EncryptedColumns.Proofs.Identifiers
import EncryptedColumns.Proofs.IntegerText

/-!
# SQL text as tokens

An identifier is as long as it can be, so a dollar sign inside it starts no
placeholder. A placeholder is a dollar sign outside of identifiers with digits behind
it. Every other character is a token of its own, blanks included.
-/

namespace EncryptedColumns.Sql

open Identifier (isInitial isSubsequent isPlain)

inductive Token where
  | word (name : String)
  | placeholder (digits : String)
  | symbol (c : Char)
  deriving DecidableEq

inductive Scan where
  | between
  | word (read : List Char)
  | dollar
  | placeholder (read : List Char)

namespace Scan

def finish : Scan → List Token
  | between => []
  | word cs => [.word (String.ofList cs)]
  | dollar => [.symbol '$']
  | placeholder ds => [.placeholder (String.ofList ds)]

def grow? : Scan → Char → Option Scan
  | between, _ => none
  | word cs, c => if isSubsequent c then some (word (cs ++ [c])) else none
  | dollar, c => if c.isDigit then some (placeholder [c]) else none
  | placeholder ds, c => if c.isDigit then some (placeholder (ds ++ [c])) else none

def start (c : Char) : List Token × Scan :=
  if isInitial c then ([], word [c])
  else if c = '$' then ([], dollar)
  else ([.symbol c], between)

def run : Scan → List Char → List Token
  | s, [] => s.finish
  | s, c :: cs =>
    match s.grow? c with
    | some s => run s cs
    | none => s.finish ++ (start c).1 ++ run (start c).2 cs

end Scan

def tokens (sql : String) : List Token :=
  Scan.between.run sql.toList

/-! ## Where tokens end -/

theorem isDigit_of_not_isSubsequent {c : Char} (h : isSubsequent c = false) : c.isDigit = false := by
  simp only [isSubsequent, Char.isAlphanum, Bool.or_eq_false_iff] at h
  exact h.1.1.2

theorem Scan.run_separator {c : Char} (hc : isSubsequent c = false) (rest : List Char) :
    ∀ (s : Scan) (cs : List Char),
      s.run (cs ++ c :: rest) = s.run cs ++ .symbol c :: between.run rest
  | s, [] => by
    have hg : s.grow? c = none := by
      cases s <;> simp [grow?, hc, isDigit_of_not_isSubsequent hc]
    have hi : isInitial c = false := by
      cases hi : isInitial c with
      | false => rfl
      | true => rw [Identifier.isSubsequent_of_isInitial hi] at hc; cases hc
    have hd : c ≠ '$' := by
      intro h
      subst h
      exact absurd hc (by decide)
    have hs : start c = ([.symbol c], between) := by
      rw [start, hi, if_neg Bool.false_ne_true, if_neg hd]
    simp only [List.nil_append, run, hg, hs, List.append_assoc, List.singleton_append]
  | s, d :: cs => by
    -- the token goes on, or it ends and `d` starts the next one
    rw [List.cons_append, run, run]
    cases hg : s.grow? d with
    | some s' => exact run_separator hc rest s' cs
    | none =>
      show s.finish ++ (start d).1 ++ (start d).2.run (cs ++ c :: rest) = _
      rw [run_separator hc rest (start d).2 cs, ← List.append_assoc]

def EndsToken (s : String) : Prop :=
  s.toList.getLast?.any (fun c => !isSubsequent c) = true

def StartsToken (s : String) : Prop :=
  s.toList.head?.any (fun c => !isSubsequent c) = true

instance (s : String) : Decidable (EndsToken s) := instDecidableEqBool _ true

instance (s : String) : Decidable (StartsToken s) := instDecidableEqBool _ true

theorem endsToken_iff {s : String} :
    EndsToken s ↔ ∃ cs c, s.toList = cs ++ [c] ∧ isSubsequent c = false := by
  simp only [EndsToken, Option.any_eq_true, Bool.not_eq_true', List.getLast?_eq_some_iff]
  constructor
  · intro h
    obtain ⟨c, ⟨cs, hcs⟩, hc⟩ := h
    exact ⟨cs, c, hcs, hc⟩
  · intro h
    obtain ⟨cs, c, hcs, hc⟩ := h
    exact ⟨c, ⟨cs, hcs⟩, hc⟩

theorem startsToken_iff {s : String} :
    StartsToken s ↔ ∃ c cs, s.toList = c :: cs ∧ isSubsequent c = false := by
  simp only [StartsToken, Option.any_eq_true, Bool.not_eq_true', List.head?_eq_some_iff]
  constructor
  · intro h
    obtain ⟨c, ⟨cs, hcs⟩, hc⟩ := h
    exact ⟨c, cs, hcs, hc⟩
  · intro h
    obtain ⟨c, cs, hcs, hc⟩ := h
    exact ⟨c, ⟨cs, hcs⟩, hc⟩

theorem tokens_append_of_endsToken {a b : String} (h : EndsToken a) :
    tokens (a ++ b) = tokens a ++ tokens b := by
  obtain ⟨cs, c, hcs, hc⟩ := endsToken_iff.1 h
  rw [tokens, tokens, String.toList_append, hcs, List.append_assoc, List.singleton_append,
    Scan.run_separator hc, Scan.run_separator hc, List.append_assoc]
  rfl

theorem tokens_append_of_startsToken {a b : String} (h : StartsToken b) :
    tokens (a ++ b) = tokens a ++ tokens b := by
  obtain ⟨c, cs, hcs, hc⟩ := startsToken_iff.1 h
  have hb : tokens b = .symbol c :: Scan.between.run cs := by
    rw [tokens, hcs]
    exact Scan.run_separator hc cs .between []
  rw [hb, tokens, String.toList_append, hcs, Scan.run_separator hc]
  rfl

theorem EndsToken.append {a b : String} (h : EndsToken b) : EndsToken (a ++ b) := by
  obtain ⟨cs, c, hcs, hc⟩ := endsToken_iff.1 h
  refine endsToken_iff.2 ⟨a.toList ++ cs, c, ?_, hc⟩
  rw [String.toList_append, hcs, List.append_assoc]

theorem StartsToken.append {a b : String} (h : StartsToken a) : StartsToken (a ++ b) := by
  obtain ⟨c, cs, hcs, hc⟩ := startsToken_iff.1 h
  refine startsToken_iff.2 ⟨c, cs ++ b.toList, ?_, hc⟩
  rw [String.toList_append, hcs, List.cons_append]

theorem tokens_append_separator (sep : String) (hs : StartsToken sep) (he : EndsToken sep)
    (a b : String) : tokens (a ++ sep ++ b) = tokens a ++ (tokens sep ++ tokens b) := by
  rw [String.append_assoc, tokens_append_of_startsToken (hs.append), tokens_append_of_endsToken he]

/-! ## Single tokens -/

theorem Scan.run_of_grow? {f : List Char → Scan} {cs : List Char}
    (h : ∀ c ∈ cs, ∀ ds, (f ds).grow? c = some (f (ds ++ [c]))) (ds : List Char) :
    (f ds).run cs = (f (ds ++ cs)).finish := by
  induction cs generalizing ds with
  | nil => rw [List.append_nil]; rfl
  | cons c cs ih =>
    rw [run, h c (List.mem_cons_self ..)]
    show (f (ds ++ [c])).run cs = _
    rw [ih (fun d hd => h d (List.mem_cons_of_mem _ hd)), List.append_assoc]
    rfl

theorem tokens_of_isPlain {s : String} (h : isPlain s.toList = true) : tokens s = [.word s] := by
  have hs := String.ofList_toList (s := s)
  cases hcs : s.toList with
  | nil => rw [hcs] at h; cases h
  | cons c cs =>
    rw [hcs] at h hs
    simp only [isPlain, Bool.and_eq_true, List.all_eq_true] at h
    have hstart : Scan.start c = ([], .word [c]) := if_pos h.1
    have hgrow : ∀ d ∈ cs, ∀ ds, (Scan.word ds).grow? d = some (.word (ds ++ [d])) :=
      fun d hd ds => if_pos (h.2 d hd)
    rw [tokens, hcs, Scan.run]
    show [] ++ (Scan.start c).1 ++ (Scan.start c).2.run cs = _
    rw [hstart]
    show (Scan.word [c]).run cs = _
    rw [Scan.run_of_grow? hgrow]
    show [Token.word (String.ofList (c :: cs))] = _
    rw [hs]

def dotted : List String → List Token
  | [] => []
  | [name] => [.word name]
  | name :: names => .word name :: .symbol '.' :: dotted names

theorem tokens_of_isTable {s : String} (h : Identifier.isTable s = true) :
    tokens s = dotted (Identifier.parts s) := by
  rcases Identifier.isTable_cases h with h | ⟨a, b, hs, ha, hb⟩
  · rw [Identifier.parts_of_isPlain h]
    exact tokens_of_isPlain h
  · have htokens {cs : List Char} (h : isPlain cs = true) :
        Scan.between.run cs = [.word (String.ofList cs)] := by
      have ht := tokens_of_isPlain (s := String.ofList cs) (by rw [String.toList_ofList]; exact h)
      rwa [tokens, String.toList_ofList] at ht
    rw [Identifier.parts_of_dot hs ha hb, tokens, hs, Scan.run_separator (by decide), htokens ha,
      htokens hb]
    rfl

theorem tokens_number (n : Nat) : tokens ("$" ++ n.repr) = [.placeholder n.repr] := by
  have htext : n.repr.toList = Nat.toDigits 10 n := Nat.toList_repr
  have hd : ∀ c ∈ n.repr.toList, c.isDigit = true := by
    rw [htext]
    exact Integer.isDigit_of_mem_toDigits
  have hs := String.ofList_toList (s := n.repr)
  rw [tokens, String.toList_append]
  cases hcs : n.repr.toList with
  | nil => exact absurd (htext.symm.trans hcs) (by simp)
  | cons c cs =>
    rw [hcs] at hd hs
    have hfirst : Scan.dollar.grow? c = some (.placeholder [c]) :=
      if_pos (hd c (List.mem_cons_self ..))
    have hgrow : ∀ d ∈ cs, ∀ ds, (Scan.placeholder ds).grow? d = some (.placeholder (ds ++ [d])) :=
      fun d hm ds => if_pos (hd d (List.mem_cons_of_mem _ hm))
    show Scan.dollar.run (c :: cs) = _
    rw [Scan.run, hfirst]
    show (Scan.placeholder [c]).run cs = _
    rw [Scan.run_of_grow? hgrow]
    show [Token.placeholder (String.ofList (c :: cs))] = _
    rw [hs]

end EncryptedColumns.Sql
