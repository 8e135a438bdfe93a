import EncryptedColumns.Proofs.Placeholders
import Mathlib.Data.List.Perm.Basic

/-!
# The order of joining

A placeholder keeps the number that it was issued with, while the parameters of a join
stand in the order of joining. Fragments of one builder can therefore be joined in the
order in which they were made. In another order the placeholders find their operands only
if the parameters happen to be the same list in both orders.
-/

namespace EncryptedColumns.Sql

namespace Call

def envelopes : Call → List String
  | .ask p => p.texts.map (bound p.target)
  | .orderBy _ _ => []

/-- The operands for which a call takes placeholders, each with the number that it gets. -/
def issued (c : Call) (b : Builder) : List (String × Nat) :=
  match c.run b with
  | (some _, _) => c.envelopes.zipIdx b.nextParam
  | (none, _) => []

variable {b : Builder} {c : Call}

theorem issued_none (h : c.template? b.options.qualify = none) : c.issued b = [] := by
  unfold issued
  rw [run_none h]

theorem issued_some (hn : b.options.placeholder = .numbered) {ps : List Piece}
    (h : c.template? b.options.qualify = some ps) :
    c.issued b = (operands ps).zipIdx b.nextParam := by
  unfold issued
  rw [run_some hn h]
  cases c with
  | ask p =>
    obtain ⟨_, rfl⟩ : isNameable b.options.qualify p.target = true ∧
        p.template b.options.qualify = ps := by
      simpa [template?] using h
    show (p.texts.map (bound p.target)).zipIdx b.nextParam = _
    rw [p.texts_eq_operands]
  | orderBy target direction => cases h

end Call

def issuedBy : List Call → Builder → List (String × Nat)
  | [], _ => []
  | c :: cs, b => c.issued b ++ issuedBy cs (c.run b).2

theorem issuedBy_eq (calls : List Call) {b : Builder} (hn : b.options.placeholder = .numbered) :
    issuedBy calls b =
      ((calls.filterMap (Call.template? b.options.qualify)).flatMap operands).zipIdx b.nextParam := by
  induction calls generalizing b with
  | nil => rfl
  | cons c cs ih =>
    rw [issuedBy, List.filterMap_cons]
    cases hc : c.template? b.options.qualify with
    | none =>
      rw [Call.issued_none hc, Call.run_none hc]
      exact ih hn
    | some ps =>
      have hrest := ih (b := b.advance (operands ps).length) hn
      rw [Call.issued_some hn hc, Call.run_some hn hc, List.flatMap_cons, List.zipIdx_append]
      exact congrArg _ hrest

/-! ## Joins in any order -/

theorem placeholders_and (f g : Fragment) :
    placeholders (f.and g).sql = placeholders f.sql ++ placeholders g.sql := by
  have hand : (tokens " AND ").filterMap Token.digits? = [] := by decide
  unfold placeholders Fragment.and
  rw [tokens_append_separator " AND " (by decide) (by decide), List.filterMap_append,
    List.filterMap_append, hand, List.nil_append]

theorem placeholders_join {fs : List Fragment} {f : Fragment} (h : IsJoin fs f) :
    placeholders f.sql = fs.flatMap fun g => placeholders g.sql := by
  induction h with
  | one f => simp
  | and _ _ ihf ihg => rw [placeholders_and, ihf, ihg, List.flatMap_append]

theorem params_join {fs : List Fragment} {f : Fragment} (h : IsJoin fs f) :
    f.params = fs.flatMap (·.params) := by
  induction h with
  | one f => simp
  | and _ _ ihf ihg => rw [Fragment.and, ihf, ihg, List.flatMap_append]

theorem placeholders_fragmentsFrom {pss : List (List Piece)} (h : ∀ ps ∈ pss, ∀ p ∈ ps, p.IsFixed)
    (n : Nat) :
    ((fragmentsFrom n pss).flatMap fun f => placeholders f.sql) =
      (List.range' n (pss.flatMap operands).length).map Nat.repr := by
  induction pss generalizing n with
  | nil => rfl
  | cons ps pss ih =>
    obtain ⟨hps, hpss⟩ := List.forall_mem_cons.1 h
    rw [fragmentsFrom, List.flatMap_cons, List.flatMap_cons, ih hpss, List.length_append,
      ← List.range'_append_1, List.map_append]
    exact congrArg (· ++ _) (placeholders_numbered hps n)

/-! ## Bound placeholders -/

def number (digits : String) : Nat :=
  Nat.ofDigitChars 10 digits.toList 0

theorem number_repr (n : Nat) : number n.repr = n := by
  unfold number
  rw [Nat.toList_repr, Nat.ofDigitChars_ten_toDigits]

/-- Every placeholder finds, among parameters that are bound from a first number on, the operand for
which its number was issued. -/
def Fragment.Binds (first : Nat) (issued : List (String × Nat)) (f : Fragment) : Prop :=
  ∀ d ∈ placeholders f.sql, ∃ e, (e, number d) ∈ issued ∧ f.params[number d - first]? = some e

theorem binds_iff_params_eq {first : Nat} {es : List String} {f : Fragment}
    (hp : (placeholders f.sql).Perm ((List.range' first es.length).map Nat.repr))
    (hl : f.params.length = es.length) :
    f.Binds first (es.zipIdx first) ↔ f.params = es := by
  constructor
  · intro h
    apply List.ext_getElem?
    intro i
    by_cases hi : i < es.length
    -- no number is left out, so every parameter stands behind some placeholder
    · have hd : (first + i).repr ∈ placeholders f.sql := by
        apply hp.mem_iff.2
        apply List.mem_map_of_mem
        rw [List.mem_range'_1]
        omega
      obtain ⟨e, he, hparam⟩ := h _ hd
      rw [number_repr, Nat.add_sub_cancel_left] at hparam
      rw [number_repr, List.mk_mem_zipIdx_iff_le_and_getElem?_sub, Nat.add_sub_cancel_left] at he
      rw [hparam, he.2]
    · rw [List.getElem?_eq_none (by omega), List.getElem?_eq_none (by omega)]
  · intro h d hd
    obtain ⟨n, hn, rfl⟩ := List.mem_map.1 (hp.mem_iff.1 hd)
    rw [List.mem_range'_1] at hn
    have hlt : n - first < es.length := by omega
    refine ⟨es[n - first], ?_, ?_⟩
    · rw [number_repr, List.mk_mem_zipIdx_iff_le_and_getElem?_sub]
      exact ⟨hn.1, List.getElem?_eq_getElem hlt⟩
    · rw [number_repr, h]
      exact List.getElem?_eq_getElem hlt

section
variable (first : Nat) (qualify : Bool) (calls : List Call)

theorem binds_of_perm {fs : List Fragment} {joined : Fragment}
    (hperm : fs.Perm (runAll calls (.start ⟨.numbered, first, qualify⟩)).1) (hj : IsJoin fs joined) :
    joined.Binds first (issuedBy calls (.start ⟨.numbered, first, qualify⟩)) ↔
      joined.params =
        (runAll calls (.start ⟨.numbered, first, qualify⟩)).1.flatMap (·.params) := by
  let templates := calls.filterMap (Call.template? qualify)
  have hfixed : ∀ ps ∈ templates, ∀ p ∈ ps, p.IsFixed := by
    intro ps hps
    obtain ⟨c, _, hc⟩ := List.mem_filterMap.1 hps
    exact Call.isFixed_template hc
  have hmade : (runAll calls (.start ⟨.numbered, first, qualify⟩)).1 =
      fragmentsFrom first templates := by
    rw [runAll_eq calls rfl]
    rfl
  have hissued : issuedBy calls (.start ⟨.numbered, first, qualify⟩) =
      (templates.flatMap operands).zipIdx first := issuedBy_eq calls rfl
  rw [hmade] at hperm ⊢
  rw [hissued, params_fragmentsFrom]
  apply binds_iff_params_eq
  · rw [placeholders_join hj, ← placeholders_fragmentsFrom hfixed]
    exact hperm.flatMap_right _
  · have hparams := hperm.flatMap_right (·.params)
    rw [params_join hj, hparams.length_eq, params_fragmentsFrom]

/-- **Fragments are joined as they were made.** Of two fragments, the one made first has to be joined
first: then every placeholder is bound to its own operand. The other order binds them only if the
parameters of both joins are the same list. -/
theorem binds_and_iff {f g : Fragment}
    (hmade : (runAll calls (.start ⟨.numbered, first, qualify⟩)).1 = [f, g]) :
    let issued := issuedBy calls (.start ⟨.numbered, first, qualify⟩)
    (f.and g).Binds first issued ∧
      ((g.and f).Binds first issued ↔ g.params ++ f.params = f.params ++ g.params) := by
  intro issued
  have hparams : (runAll calls (.start ⟨.numbered, first, qualify⟩)).1.flatMap (·.params) =
      f.params ++ g.params := by
    rw [hmade]
    simp
  have hfirst : IsJoin [f, g] (f.and g) := .and (.one f) (.one g)
  have hsecond : IsJoin [g, f] (g.and f) := .and (.one g) (.one f)
  constructor
  · apply (binds_of_perm first qualify calls _ hfirst).2
    · exact hparams.symm
    · rw [hmade]
  · have hperm : [g, f].Perm (runAll calls (.start ⟨.numbered, first, qualify⟩)).1 := by
      rw [hmade]
      exact .swap f g []
    have hswapped := binds_of_perm first qualify calls hperm hsecond
    rw [hparams] at hswapped
    exact hswapped

end

def twiceTheSame : List Call :=
  [.ask (k := .text) (.matching ⟨"t", "a"⟩ "x"), .ask (k := .text) (.equal ⟨"t", "a"⟩ "x")]

theorem binds_and_iff_twice : ∃ f g,
    (runAll twiceTheSame (.start ⟨.numbered, 3, false⟩)).1 = [f, g] ∧
      (g.and f).Binds 3 (issuedBy twiceTheSame (.start ⟨.numbered, 3, false⟩)) := by
  refine ⟨_, _, rfl, ?_⟩
  exact (binds_and_iff 3 false twiceTheSame rfl).2.2 rfl

def twoColumns : List Call :=
  [.ask (k := .text) (.matching ⟨"t", "a"⟩ "x"), .ask (k := .text) (.matching ⟨"t", "b"⟩ "y")]

/-- `$2` comes first in the text, and the operand of `b` first among the parameters, where `$1` finds it. -/
theorem not_binds_and_swapped : ∃ f g,
    (runAll twoColumns (.start ⟨.numbered, 1, false⟩)).1 = [f, g] ∧
      (g.and f).sql = "cs_match_v1(b) @> cs_match_v1($2) AND cs_match_v1(a) @> cs_match_v1($1)" ∧
      (g.and f).params = [bound ⟨"t", "b"⟩ "y", bound ⟨"t", "a"⟩ "x"] ∧
      ¬ (g.and f).Binds 1 (issuedBy twoColumns (.start ⟨.numbered, 1, false⟩)) := by
  refine ⟨_, _, rfl, rfl, rfl, ?_⟩
  intro h
  have hjoin : ∀ f g : Fragment, IsJoin [g, f] (g.and f) := fun f g => .and (.one g) (.one f)
  have hparams := (binds_of_perm 1 false twoColumns (.swap _ _ []) (hjoin _ _)).1 h
  revert hparams
  decide

end EncryptedColumns.Sql
