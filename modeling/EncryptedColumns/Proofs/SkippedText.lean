import EncryptedColumns.Json.Skip
import EncryptedColumns.Proofs.ReaderResults

/-!
# Values are passed over where they end

Passing over a value checks less than reading it and keeps a stack of what is open, where
reading goes into what stands inside. Still, what can be read is passed over, and both end at
the same place. With more brackets open around a value only what comes after it differs, so
each lemma leaves the stack open.
-/

namespace EncryptedColumns.Json

/-! ## Numbers -/

section
variable {e e' : Fault} {bs rest : Bytes}

theorem digitsDue_of_ok {ds : List Nat} (h : digitsDue e bs = .ok (ds, rest)) :
    digitsDue e' bs = .ok (ds, rest) := by
  unfold digitsDue at h ⊢
  split at h
  · cases h
  · cases h
  · exact h

theorem wholePart_of_ok {ds : List Nat} (h : wholePart e bs = .ok (ds, rest)) :
    wholePart e' bs = .ok (ds, rest) := by
  obtain ⟨p, hd, h⟩ := bind_eq_ok.1 h
  exact bind_eq_ok.2 ⟨p, digitsDue_of_ok hd, h⟩

theorem fractionPart_of_ok {ds : List Nat} (h : fractionPart e bs = .ok (ds, rest)) :
    fractionPart e' bs = .ok (ds, rest) := by
  unfold fractionPart at h ⊢
  split at h
  · split at h
    · rw [if_pos ‹_›]
      exact digitsDue_of_ok h
    · rw [if_neg ‹_›]
      exact h
  · exact h

theorem exponentPart_of_ok {x : Option (Bool × List Nat)} (h : exponentPart e bs = .ok (x, rest)) :
    exponentPart e' bs = .ok (x, rest) := by
  unfold exponentPart at h ⊢
  split at h
  · split at h
    · rw [if_pos ‹_›]
      obtain ⟨p, hd, h⟩ := bind_eq_ok.1 h
      exact bind_eq_ok.2 ⟨p, digitsDue_of_ok hd, h⟩
    · rw [if_neg ‹_›]
      exact h
  · exact h

theorem numeral_of_ok {n : Numeral} (h : numeral e bs = .ok (n, rest)) :
    numeral e' bs = .ok (n, rest) := by
  obtain ⟨p, hw, h⟩ := bind_eq_ok.1 h
  obtain ⟨q, hf, h⟩ := bind_eq_ok.1 h
  obtain ⟨r, hx, h⟩ := bind_eq_ok.1 h
  exact bind_eq_ok.2 ⟨p, wholePart_of_ok hw,
    bind_eq_ok.2 ⟨q, fractionPart_of_ok hf, bind_eq_ok.2 ⟨r, exponentPart_of_ok hx, h⟩⟩⟩

end

/-! ## Strings -/

theorem skipContent_quote {b : UInt8} (h : Char.ofUInt8 b = '"') (bs : Bytes) :
    skipContent (b :: bs) = .ok bs := by
  rw [skipContent, if_pos h]

theorem skipContent_escape {b : UInt8} {bs left : Bytes} (hb : Char.ofUInt8 b = '\\')
    (h : skipEscape bs = .ok left) : skipContent (b :: bs) = skipContent left := by
  rw [skipContent, hb, if_neg (by decide), if_pos rfl]
  split
  · rename_i hl
    rw [h] at hl
    cases hl
    rfl
  · rename_i hl
    rw [h] at hl
    cases hl

theorem skipContent_byte {b : UInt8} (hq : Char.ofUInt8 b ≠ '"') (hs : Char.ofUInt8 b ≠ '\\')
    (hc : ¬ b < 0x20) (bs : Bytes) : skipContent (b :: bs) = skipContent bs := by
  rw [skipContent, if_neg hq, if_neg hs, if_neg hc]

theorem skipEscape_unit {b : UInt8} {bs rest : Bytes} {n : Nat} (hb : Char.ofUInt8 b = 'u')
    (h : hexUnit bs = .ok (n, rest)) : skipEscape (b :: bs) = .ok rest := by
  rw [skipEscape, if_pos hb, h]
  rfl

theorem secondEscape_cases {bs rest : Bytes} (h : secondEscape bs = .ok rest) :
    ∃ b u, bs = b :: u :: rest ∧ Char.ofUInt8 b = '\\' ∧ Char.ofUInt8 u = 'u' := by
  unfold secondEscape at h
  split at h
  · cases h
  · split at h
    · split at h
      · cases h
      · split at h
        · cases h
          exact ⟨_, _, rfl, ‹_›, ‹_›⟩
        · cases h
    · cases h

theorem hexEscape_cases {bs left : Bytes} {c : Char} (h : hexEscape bs = .ok (c, left)) :
    (∃ n, hexUnit bs = .ok (n, left)) ∨
    ∃ high low mid next, hexUnit bs = .ok (high, mid) ∧ secondEscape mid = .ok next ∧
      hexUnit next = .ok (low, left) := by
  obtain ⟨⟨high, mid⟩, hhigh, h⟩ := bind_eq_ok.1 h
  dsimp only at h
  split at h
  · cases h
  · split at h
    · obtain ⟨next, hnext, h⟩ := bind_eq_ok.1 h
      obtain ⟨⟨low, r⟩, hlow, h⟩ := bind_eq_ok.1 h
      dsimp only at h
      split at h
      · obtain rfl := (Prod.mk.inj (Except.ok.inj h)).2
        exact .inr ⟨high, low, mid, next, hhigh, hnext, hlow⟩
      · cases h
    · obtain rfl := (Prod.mk.inj (Except.ok.inj h)).2
      exact .inl ⟨high, hhigh⟩

theorem skipContent_of_escape {b : UInt8} {bs left : Bytes} {c : Char} (hb : Char.ofUInt8 b = '\\')
    (h : escape bs = .ok (c, left)) : skipContent (b :: bs) = skipContent left := by
  unfold escape at h
  split at h
  · cases h
  · rename_i u rest
    by_cases hu : Char.ofUInt8 u = 'u'
    · rw [if_pos hu] at h
      rcases hexEscape_cases h with ⟨n, hn⟩ | ⟨high, low, mid, next, hhigh, hnext, hlow⟩
      · exact skipContent_escape hb (skipEscape_unit hu hn)
      · rw [skipContent_escape hb (skipEscape_unit hu hhigh)]
        obtain ⟨b', u', rfl, hb', hu'⟩ := secondEscape_cases hnext
        exact skipContent_escape hb' (skipEscape_unit hu' hlow)
    · rw [if_neg hu] at h
      split at h
      · rename_i hs
        cases h
        refine skipContent_escape hb ?_
        rw [skipEscape, if_neg hu, hs]
      · cases h

theorem skipContent_of_content {read bs rest : Bytes} {s : String}
    (h : content read bs = .ok (s, rest)) : skipContent bs = .ok rest := by
  fun_induction content read bs with
  | case1 => cases h
  | case2 read b bs hq | case3 read b bs hq =>
    split at h <;> cases h
    exact skipContent_quote hq _
  | case4 read b bs _ hb c left he _ ih => rw [skipContent_of_escape hb he, ih h]
  | case5 => cases h
  | case6 => cases h
  | case7 read b bs hq hb hc ih => rw [skipContent_byte hq hb hc, ih h]

theorem Scalar.skip_of_read {s : Scalar} {b : UInt8} {bs rest : Bytes} {j : Json}
    (h : s.read b bs = .ok (j, rest)) : s.skip b bs = .ok rest := by
  cases s with
  | null | yes | no =>
    obtain ⟨r, hw, h⟩ := bind_eq_ok.1 h
    cases h
    exact hw
  | number =>
    obtain ⟨p, hn, h⟩ := bind_eq_ok.1 h
    obtain ⟨v, _, h⟩ := bind_eq_ok.1 h
    cases h
    exact bind_eq_ok.2 ⟨p, numeral_of_ok hn, rfl⟩
  | string =>
    obtain ⟨p, hs, h⟩ := bind_eq_ok.1 h
    cases h
    exact skipContent_of_content hs

/-! ## Going on behind a value -/

namespace Bracket

theorem closeAll_comma {k : Bracket} {b : UInt8} {bs rest : Bytes} (h : skipBlanks bs = b :: rest)
    (hb : Char.ofUInt8 b = ',') (ks : List Bracket) : closeAll (k :: ks) bs = .ok (k :: ks, rest) := by
  rw [closeAll, h]
  exact if_pos hb

theorem closeAll_close {k : Bracket} {b : UInt8} {bs rest : Bytes} (h : skipBlanks bs = b :: rest)
    (hb : Char.ofUInt8 b = k.close) (ks : List Bracket) : closeAll (k :: ks) bs = closeAll ks rest := by
  have hne : Char.ofUInt8 b ≠ ',' := by
    rw [hb]
    cases k <;> decide
  rw [closeAll, h]
  simp only [if_neg hne, if_pos hb]

theorem enter_close {k : Bracket} {b : UInt8} {bs rest : Bytes} (h : skipBlanks bs = b :: rest)
    (hb : Char.ofUInt8 b = k.close) (ks : List Bracket) : enter k ks bs = closeAll ks rest := by
  rw [enter, h]
  exact if_pos hb

theorem enter_open {k : Bracket} {b : UInt8} {bs rest : Bytes} (h : skipBlanks bs = b :: rest)
    (hb : Char.ofUInt8 b ≠ k.close) (ks : List Bracket) : enter k ks bs = .ok (k :: ks, bs) := by
  rw [enter, h]
  exact if_neg hb

theorem skipKey_curly {b : UInt8} {bs body left rest : Bytes} (h : skipBlanks bs = b :: body)
    (hb : Char.ofUInt8 b = '"') (hs : skipContent body = .ok left) (hc : colon left = .ok rest)
    (ks : List Bracket) : skipKey (.curly :: ks) bs = .ok rest := by
  rw [skipKey, h]
  simp only [if_pos hb, hs]
  exact hc

end Bracket

def goOn : List Bracket × Bytes → Except Fault Bytes
  | ([], rest) => .ok rest
  | (k :: ks, rest) => skipFrom (k :: ks) rest

def resume (ks : List Bracket) (bs : Bytes) : Except Fault Bytes :=
  Bracket.closeAll ks bs >>= goOn

theorem skipFrom_eq (ks : List Bracket) (bs : Bytes) : skipFrom ks bs = skipOne ks bs >>= goOn := by
  rw [skipFrom]
  split <;> rename_i h <;> simp only [h] <;> rfl

/-- What stands up to `rest` is passed over as one value, whatever is open around it. -/
def Spans (bs rest : Bytes) : Prop :=
  ∀ ks start, Bracket.skipKey ks start = .ok bs → skipFrom ks start = resume ks rest

theorem Spans.skip {bs rest : Bytes} (h : Spans bs rest) : skip.run bs = .ok ((), rest) :=
  bind_eq_ok.2 ⟨rest, h [] bs rfl, rfl⟩

theorem spans_scalar {s : Scalar} {b : UInt8} {bs r rest : Bytes}
    (hl : lead bs = .ok (.scalar s, b, r)) (hs : s.skip b r = .ok rest) : Spans bs rest := by
  intro ks start hk
  have hone : skipOne ks start = Bracket.closeAll ks rest := by
    simp only [skipOne, hk, hl, hs, bind, Except.bind]
  rw [skipFrom_eq, hone]
  rfl

/-! ## Arrays -/

/-- Every value that the reader takes is passed over up to where the reader ends. -/
def Delimits {α : Type} (item : Reader α) : Prop :=
  ∀ bs a rest, item.run bs = .ok (a, rest) → Spans bs rest

theorem resume_afterElement {bs rest : Bytes} {more : Bool} (h : afterElement bs = .ok (more, rest))
    (ks : List Bracket) : resume (.square :: ks) bs =
      if more then skipFrom (.square :: ks) rest else resume ks rest := by
  unfold afterElement at h
  split at h
  · cases h
  · rename_i hb
    split at h
    · cases h
      rw [resume, Bracket.closeAll_close hb ‹_›]
      rfl
    · split at h
      · cases h
      · split at h
        · cases h
        · cases h
          rw [resume, Bracket.closeAll_comma hb ‹_›]
          rfl
    · cases h

section
variable {α : Type} {item : Reader α} (hitem : Delimits item)
include hitem

theorem skipFrom_elementsFrom {bs rest : Bytes} {as : List α}
    (h : elementsFrom item bs = .ok (as, rest)) (ks : List Bracket) :
    skipFrom (.square :: ks) bs = resume ks rest := by
  -- each element is passed over under its own bracket, which is still open behind it
  fun_induction elementsFrom item bs generalizing as with
  | case1 => cases h
  | case2 => cases h
  | case3 bs a r hi r' ha =>
    cases h
    rw [hitem bs a r hi (.square :: ks) bs rfl, resume_afterElement ha]
    rfl
  | case4 bs a r hi left ha h₁ h₂ ih =>
    obtain ⟨p, hl, h⟩ := map_eq_ok.1 h
    cases h
    rw [hitem bs a r hi (.square :: ks) bs rfl, resume_afterElement ha]
    exact ih hl

theorem spans_elements {b : UInt8} {bs r rest : Bytes} {as : List α}
    (hl : lead bs = .ok (.array, b, r)) (h : elements item r = .ok (as, rest)) : Spans bs rest := by
  intro ks start hk
  have hone : skipOne ks start = Bracket.enter .square ks r := by
    simp only [skipOne, hk, hl, bind, Except.bind]
  rw [skipFrom_eq, hone]
  unfold elements at h
  split at h
  · cases h
  · rename_i hb
    split at h
    · cases h
      rw [Bracket.enter_close hb ‹_›]
      rfl
    · rw [Bracket.enter_open hb ‹_›]
      exact skipFrom_elementsFrom hitem h ks

end

/-! ## Objects -/

theorem resume_afterField {bs rest : Bytes} {more : Bool} (h : afterField bs = .ok (more, rest))
    (ks : List Bracket) :
    if more then ∃ b start, skipBlanks start = b :: rest ∧ Char.ofUInt8 b = '"' ∧
      resume (.curly :: ks) bs = skipFrom (.curly :: ks) start
    else resume (.curly :: ks) bs = resume ks rest := by
  unfold afterField at h
  split at h
  · cases h
  · rename_i hb
    split at h
    · cases h
      rw [resume, Bracket.closeAll_close hb ‹_›]
      rfl
    · split at h
      · cases h
      · split at h
        · cases h
          refine ⟨_, _, ‹_›, ‹_›, ?_⟩
          rw [resume, Bracket.closeAll_comma hb ‹_›]
          rfl
        · cases h
        · cases h
    · cases h

section
variable {σ : Type} {step : FieldStep σ} (hstep : ∀ s key r, step s key = .ok r → Delimits r)
include hstep

theorem skipFrom_field {s t : σ} {b : UInt8} {start bs rest : Bytes}
    (h : field step s bs = .ok (t, rest)) (hb : skipBlanks start = b :: bs)
    (hq : Char.ofUInt8 b = '"') (ks : List Bracket) :
    skipFrom (.curly :: ks) start = resume (.curly :: ks) rest := by
  obtain ⟨⟨key, r⟩, hkey, h⟩ := bind_eq_ok.1 h
  obtain ⟨value, hvalue, h⟩ := bind_eq_ok.1 h
  obtain ⟨r', hcolon, h⟩ := bind_eq_ok.1 h
  refine hstep s key value hvalue r' t rest h (.curly :: ks) start ?_
  exact Bracket.skipKey_curly hb hq (skipContent_of_content hkey) hcolon ks

theorem skipFrom_membersFrom {s t : σ} {b : UInt8} {start bs rest : Bytes}
    (h : membersFrom step s bs = .ok (t, rest)) (hb : skipBlanks start = b :: bs)
    (hq : Char.ofUInt8 b = '"') (ks : List Bracket) :
    skipFrom (.curly :: ks) start = resume ks rest := by
  fun_induction membersFrom step s bs generalizing b start with
  | case1 => cases h
  | case2 => cases h
  | case3 s bs s' r hf r' ha =>
    cases h
    rw [skipFrom_field hstep hf hb hq]
    exact resume_afterField ha ks
  | case4 s bs s' r hf left ha h₁ h₂ ih =>
    obtain ⟨b', start', hb', hq', hr⟩ := resume_afterField ha ks
    rw [skipFrom_field hstep hf hb hq, hr]
    exact ih h hb' hq'

theorem spans_members {s t : σ} {b : UInt8} {bs r rest : Bytes}
    (hl : lead bs = .ok (.object, b, r)) (h : members step s r = .ok (t, rest)) : Spans bs rest := by
  intro ks start hk
  have hone : skipOne ks start = Bracket.enter .curly ks r := by
    simp only [skipOne, hk, hl, bind, Except.bind]
  rw [skipFrom_eq, hone]
  unfold members at h
  split at h
  · cases h
  · rename_i c r' hb
    split at h
    · cases h
      rw [Bracket.enter_close hb ‹_›]
      rfl
    · rename_i hq
      have hopen : Char.ofUInt8 c ≠ Bracket.curly.close := by
        rw [hq]
        decide
      rw [Bracket.enter_open hb hopen]
      exact skipFrom_membersFrom hstep h hb hq ks
    · cases h

end

/-! ## Values -/

theorem Delimits.map {α β : Type} {r : Reader α} (h : Delimits r) (f : α → β) : Delimits (r.map f) := by
  intro bs b rest hr
  obtain ⟨⟨a, rest'⟩, hrun, hr⟩ := bind_eq_ok.1 hr
  cases hr
  exact h bs a rest hrun

theorem delimits_level {inner : Option (Reader Json)} (h : ∀ item, inner = some item → Delimits item) :
    Delimits (level inner) := by
  intro bs j rest hr
  rcases level_cases hr with ⟨s, b, r, hl, hs⟩ | ⟨item, b, r, items, hitem, hl, hitems, _⟩ |
    ⟨value, b, r, fields, hvalue, hl, hfields, _⟩
  · exact spans_scalar hl (Scalar.skip_of_read hs)
  · exact spans_elements (h item hitem) hl hitems
  · refine spans_members (fun o key r hr => ?_) hl hfields
    cases hr
    exact (h value hvalue).map _

theorem delimits_value (n : Nat) : Delimits (value n) := by
  -- the values inside are read with one level less
  induction n with
  | zero => exact delimits_level fun item hitem => nomatch hitem
  | succ n ih =>
    refine delimits_level fun item hitem => ?_
    cases hitem
    exact ih

/-- **Values.** Whatever can be read as a value is passed over, and ends at the same place. -/
theorem skip_of_value {n : Nat} {bs rest : Bytes} {j : Json} (h : (value n).run bs = .ok (j, rest)) :
    skip.run bs = .ok ((), rest) :=
  (delimits_value n bs j rest h).skip

end EncryptedColumns.Json
