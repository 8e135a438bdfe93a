import EncryptedColumns.Proofs.SkippedText

/-!
# Readers that agree

Two readers may take the same text, one for what a record promises and one for any value.
Where both take it they end at the same place: the fields of a record are read along with
the fields of the object, its unknown fields are passed over up to where their values end,
and a relation between the two states is kept from field to field.
-/

namespace EncryptedColumns.Json

/-- Where both readers take a value they end at the same place, and what they give is related. -/
def Agree {α β : Type} (r : Reader α) (s : Reader β) (R : α → β → Prop) : Prop :=
  ∀ bs a b left right, r.run bs = .ok (a, left) → s.run bs = .ok (b, right) → left = right ∧ R a b

namespace Agree

variable {α β γ δ : Type} {r : Reader α} {s : Reader β} {R : α → β → Prop}

theorem map {Q : γ → δ → Prop} {f : α → γ} {g : β → δ} (h : Agree r s R)
    (hfg : ∀ a b, R a b → Q (f a) (g b)) : Agree (r.map f) (s.map g) Q := by
  intro bs c d left right hr hs
  obtain ⟨⟨a, left'⟩, hr, hc⟩ := bind_eq_ok.1 hr
  obtain ⟨⟨b, right'⟩, hs, hd⟩ := bind_eq_ok.1 hs
  cases hc
  cases hd
  obtain ⟨hend, hab⟩ := h bs a b left right hr hs
  exact ⟨hend, hfg a b hab⟩

theorem mono {Q : α → β → Prop} (h : Agree r s R) (hQ : ∀ a b, R a b → Q a b) : Agree r s Q := by
  intro bs a b left right hr hs
  exact (h bs a b left right hr hs).imp_right (hQ a b)

theorem of_readAll (h : Agree r s R) {bs : Bytes} {a : α} {b : β} (hr : r.readAll bs = .ok a)
    (hs : s.readAll bs = .ok b) : R a b := by
  obtain ⟨left, hr, _⟩ := eq_nil_of_readAll hr
  obtain ⟨right, hs, _⟩ := eq_nil_of_readAll hs
  exact (h bs a b left right hr hs).2

end Agree

/-! ## Objects -/

def InStep {σ τ : Type} (step : FieldStep σ) (other : FieldStep τ) (R : σ → τ → Prop) : Prop :=
  ∀ s t key r q, R s t → step s key = .ok r → other t key = .ok q → Agree r q R

namespace InStep

variable {σ τ : Type} {step : FieldStep σ} {other : FieldStep τ} {R : σ → τ → Prop}
  (hstep : InStep step other R)
include hstep

theorem of_field {s s' : σ} {t t' : τ} {bs left right : Bytes} (hR : R s t)
    (h : field step s bs = .ok (s', left)) (h' : field other t bs = .ok (t', right)) :
    left = right ∧ R s' t' := by
  obtain ⟨p, hkey, h⟩ := bind_eq_ok.1 h
  obtain ⟨r, hr, h⟩ := bind_eq_ok.1 h
  obtain ⟨start, hcolon, h⟩ := bind_eq_ok.1 h
  obtain ⟨p', hkey', h'⟩ := bind_eq_ok.1 h'
  obtain ⟨q, hq, h'⟩ := bind_eq_ok.1 h'
  obtain ⟨start', hcolon', h'⟩ := bind_eq_ok.1 h'
  -- the key and the place behind the colon do not depend on the step
  cases hkey.symm.trans hkey'
  cases hcolon.symm.trans hcolon'
  exact hstep s t p.1 r q hR hr hq start s' t' left right h h'

theorem of_membersFrom {s s' : σ} {t t' : τ} {bs left right : Bytes} (hR : R s t)
    (h : membersFrom step s bs = .ok (s', left)) (h' : membersFrom other t bs = .ok (t', right)) :
    left = right ∧ R s' t' := by
  fun_induction membersFrom step s bs generalizing t with
  | case1 => cases h
  | case2 => cases h
  | case3 s bs s₁ r hf r' ha =>
    cases h
    obtain ⟨u, q, hf', hnext⟩ := membersFrom_cases h'
    obtain ⟨rfl, hRu⟩ := hstep.of_field hR hf hf'
    rcases hnext with ⟨ha', rfl⟩ | ⟨next, ha', _⟩
    · cases ha.symm.trans ha'
      exact ⟨rfl, hRu⟩
    · cases ha.symm.trans ha'
  | case4 s bs s₁ r hf start ha h₁ h₂ ih =>
    obtain ⟨u, q, hf', hnext⟩ := membersFrom_cases h'
    obtain ⟨rfl, hRu⟩ := hstep.of_field hR hf hf'
    rcases hnext with ⟨ha', _⟩ | ⟨next, ha', h'⟩
    · cases ha.symm.trans ha'
    · cases ha.symm.trans ha'
      exact ih hRu h h'

theorem of_members {s s' : σ} {t t' : τ} {bs left right : Bytes} (hR : R s t)
    (h : members step s bs = .ok (s', left)) (h' : members other t bs = .ok (t', right)) :
    left = right ∧ R s' t' := by
  unfold members at h h'
  split at h
  · cases h
  · rename_i hb
    rw [hb] at h'
    split at h
    · rename_i hc
      simp only [hc] at h'
      cases h
      cases h'
      exact ⟨rfl, hR⟩
    · rename_i hc
      simp only [hc] at h'
      exact hstep.of_membersFrom hR h h'
    · cases h

end InStep

/-! ## Arrays -/

/-- How an array goes on behind one of its elements, and where it ends. -/
def EndsBehind {α : Type} (item : Reader α) (bs rest : Bytes) : Prop :=
  afterElement bs = .ok (false, rest) ∨
    ∃ next as, afterElement bs = .ok (true, next) ∧ elementsFrom item next = .ok (as, rest)

theorem afterElement_close {b : UInt8} {bs rest : Bytes} (h : skipBlanks bs = b :: rest)
    (hb : Char.ofUInt8 b = ']') : afterElement bs = .ok (false, rest) := by
  rw [afterElement, h]
  simp only [hb]

namespace Layout

theorem endOfSlots_cases {bs rest : Bytes} (h : endOfSlots bs = .ok rest) :
    ∃ b, skipBlanks bs = b :: rest ∧ Char.ofUInt8 b = ']' := by
  unfold endOfSlots at h
  split at h
  · cases h
  · split at h
    · cases h
      exact ⟨_, ‹_›, ‹_›⟩
    · split at h
      · cases h
      · split at h <;> cases h
    · cases h

theorem afterElement_of_nextSlot {bs rest : Bytes} {more : Bool}
    (h : nextSlot false bs = .ok (more, rest)) : afterElement bs = .ok (more, rest) := by
  unfold nextSlot at h
  split at h
  · cases h
  · rename_i hb
    split at h
    · cases h
      exact afterElement_close hb ‹_›
    · exact h

section
variable {σ : Type} {item : Reader Json}

theorem end_of_slots {fs : List (Field σ)} (hf : ∀ f ∈ fs, Agree f.read item fun _ _ => True)
    {s t : σ} {bs left right : Bytes} (h : slots fs false s bs = .ok (t, left))
    (h' : EndsBehind item bs right) : left = right := by
  induction fs generalizing s bs with
  | nil =>
    obtain ⟨r, hend, h⟩ := bind_eq_ok.1 h
    cases h
    obtain ⟨b, hb, hc⟩ := endOfSlots_cases hend
    have ha := afterElement_close hb hc
    rcases h' with ha' | ⟨next, as, ha', _⟩
    · cases ha.symm.trans ha'
      rfl
    · cases ha.symm.trans ha'
  | cons f fs ih =>
    obtain ⟨hread, hfs⟩ := List.forall_mem_cons.1 hf
    obtain ⟨⟨more, r⟩, hslot, h⟩ := bind_eq_ok.1 h
    -- what stands behind the element decides for both whether another follows
    have ha := afterElement_of_nextSlot hslot
    rcases h' with ha' | ⟨next, as, ha', hl⟩
    · cases ha.symm.trans ha'
      cases h
      rfl
    · cases ha.symm.trans ha'
      obtain ⟨⟨update, r₁⟩, hrun, h⟩ := bind_eq_ok.1 h
      obtain ⟨a, r₂, hrun', hnext⟩ := elementsFrom_cases hl
      obtain ⟨rfl, _⟩ := hread r update a r₁ r₂ hrun hrun'
      exact ih hfs h hnext

theorem end_of_array {fs : List (Field σ)} (hf : ∀ f ∈ fs, Agree f.read item fun _ _ => True)
    {s t : σ} {items : List Json} {bs left right : Bytes} (h : slots fs true s bs = .ok (t, left))
    (h' : elements item bs = .ok (items, right)) : left = right := by
  unfold elements at h'
  split at h'
  · cases h'
  · rename_i b r hb
    cases fs with
    | nil =>
      obtain ⟨r', hend, h⟩ := bind_eq_ok.1 h
      cases h
      obtain ⟨b', hb', hc⟩ := endOfSlots_cases hend
      cases hb.symm.trans hb'
      rw [if_pos hc] at h'
      cases h'
      rfl
    | cons f fs =>
      obtain ⟨hread, hfs⟩ := List.forall_mem_cons.1 hf
      obtain ⟨⟨more, start⟩, hslot, h⟩ := bind_eq_ok.1 h
      rw [nextSlot, hb] at hslot
      by_cases hc : Char.ofUInt8 b = ']'
      · simp only [if_pos hc] at hslot
        rw [if_pos hc] at h'
        cases hslot
        cases h
        cases h'
        rfl
      · -- no comma comes before the first element, so both go on from `bs`
        simp only [if_neg hc] at hslot
        rw [if_neg hc] at h'
        cases hslot
        obtain ⟨⟨update, r₁⟩, hrun, h⟩ := bind_eq_ok.1 h
        obtain ⟨a, r₂, hrun', hnext⟩ := elementsFrom_cases h'
        obtain ⟨rfl, _⟩ := hread bs update a r₁ r₂ hrun hrun'
        exact end_of_slots hfs h hnext

end

end Layout

section
variable {n : Nat} {bs r rest : Bytes} {b : UInt8} {j : Json}

theorem read_of_value {s : Scalar} (hl : lead bs = .ok (.scalar s, b, r))
    (h : (value n).run bs = .ok (j, rest)) : s.read b r = .ok (j, rest) := by
  cases n with
  | zero | succ n =>
    obtain ⟨p, hlead, h⟩ := bind_eq_ok.1 h
    cases hl.symm.trans hlead
    exact h

theorem elements_of_value (hl : lead bs = .ok (.array, b, r)) (h : (value n).run bs = .ok (j, rest)) :
    ∃ m items, n = m + 1 ∧ elements (value m) r = .ok (items, rest) ∧ j = .array items := by
  cases n with
  | zero =>
    obtain ⟨p, hlead, h⟩ := bind_eq_ok.1 h
    cases hl.symm.trans hlead
    cases h
  | succ n =>
    obtain ⟨p, hlead, h⟩ := bind_eq_ok.1 h
    cases hl.symm.trans hlead
    obtain ⟨⟨items, r'⟩, hitems, h⟩ := bind_eq_ok.1 h
    cases h
    exact ⟨n, items, rfl, hitems, rfl⟩

theorem members_of_value (hl : lead bs = .ok (.object, b, r)) (h : (value n).run bs = .ok (j, rest)) :
    ∃ m fields, n = m + 1 ∧ members (gather (value m)) [] r = .ok (fields, rest) ∧
      j = .object fields := by
  cases n with
  | zero =>
    obtain ⟨p, hlead, h⟩ := bind_eq_ok.1 h
    cases hl.symm.trans hlead
    cases h
  | succ n =>
    obtain ⟨p, hlead, h⟩ := bind_eq_ok.1 h
    cases hl.symm.trans hlead
    obtain ⟨⟨fields, r'⟩, hfields, h⟩ := bind_eq_ok.1 h
    cases h
    exact ⟨n, fields, rfl, hfields, rfl⟩

end

theorem agree_skip (n : Nat) : Agree skip (value n) fun _ _ => True := by
  intro bs u j left right hskip hvalue
  cases hskip.symm.trans (skip_of_value hvalue)
  exact ⟨rfl, trivial⟩

theorem agree_text (n : Nat) : Agree text (value n) fun s j => j = .string s := by
  intro bs s j left right htext hvalue
  simp only [text] at htext
  split at htext
  · rename_i hl
    obtain ⟨p, hc, h⟩ := bind_eq_ok.1 (read_of_value hl hvalue)
    cases htext.symm.trans hc
    cases h
    exact ⟨rfl, rfl⟩
  · cases htext

theorem agree_word32 (n : Nat) : Agree word32 (value n) fun _ _ => True := by
  intro bs w j left right hword hvalue
  simp only [word32] at hword
  split at hword
  · rename_i hl
    obtain ⟨p, hn, hword⟩ := bind_eq_ok.1 hword
    obtain ⟨v, _, hword⟩ := bind_eq_ok.1 hword
    obtain ⟨w', _, hword⟩ := bind_eq_ok.1 hword
    obtain ⟨p', hn', h⟩ := bind_eq_ok.1 (read_of_value hl hvalue)
    obtain ⟨v', _, h⟩ := bind_eq_ok.1 h
    cases hn.symm.trans hn'
    cases hword
    cases h
    exact ⟨rfl, trivial⟩
  · cases hword

/-! ## Records -/

theorem due_eq_ok {α : Type} {fault : Fault} {x : Option α} {a : α} :
    due fault x = .ok a ↔ x = some a := by
  cases x <;> simp [due]

def Field.Tracks {σ : Type} (f : Field σ) (R : σ → Object → Prop) : Prop :=
  ∀ n, Agree f.read (value n) fun update v => ∀ s o, R s o → R (update s) (o.insert f.name v)

theorem Field.tracks_map {σ α : Type} {name : String} {isSet : σ → Bool} {r : Reader α}
    {update : α → σ → σ} {R : σ → Object → Prop} {Q : α → Json → Prop}
    (h : ∀ n, Agree r (value n) Q)
    (hu : ∀ a v, Q a v → ∀ s o, R s o → R (update a s) (o.insert name v)) :
    Field.Tracks ⟨name, isSet, r.map update⟩ R := by
  intro n bs u v left right hrun hvalue
  obtain ⟨⟨a, left'⟩, hrun, he⟩ := bind_eq_ok.1 hrun
  cases he
  obtain ⟨hend, hQ⟩ := h n bs a v left right hrun hvalue
  exact ⟨hend, hu a v hQ⟩

namespace Layout

variable {σ α : Type} {layout : Layout σ α} {R : σ → Object → Prop}

structure Tracks (layout : Layout σ α) (R : σ → Object → Prop) : Prop where
  known : ∀ f ∈ layout.fields, f.Tracks R
  unknown : ∀ s o key v, layout.fields.find? (·.name = key) = none → R s o → R s (o.insert key v)

theorem Tracks.inStep_gather (h : layout.Tracks R) (n : Nat) : InStep layout.step (gather (value n)) R := by
  intro s o key r q hR hr hq
  cases hq
  unfold step at hr
  split at hr
  · rename_i hnone
    cases hr
    exact (agree_skip n).map fun _ v _ => h.unknown s o key v hnone hR
  · rename_i f hfind
    split at hr
    · cases hr
    · cases hr
      have hname : f.name = key := by simpa using List.find?_some hfind
      refine (h.known f (List.mem_of_find?_eq_some hfind) n).map fun update v hu => ?_
      exact hname ▸ hu s o hR

/-- **Records.** A record that can be read as a value too ends where the value ends. If the value is
an object, the record is completed from a draft that is related to it. -/
theorem Tracks.agree_reader (h : layout.Tracks R) {blank : σ} (hblank : R blank []) (n : Nat) :
    Agree (layout.reader blank) (value n) fun a j => ∀ o, j = .object o →
      ∃ missing s, R s o ∧ layout.complete missing s = .ok a := by
  intro bs a j left right hrecord hvalue
  simp only [reader] at hrecord
  split at hrecord
  · rename_i hl
    obtain ⟨⟨s, r⟩, hm, hrecord⟩ := bind_eq_ok.1 hrecord
    obtain ⟨a', ha, hrecord⟩ := bind_eq_ok.1 hrecord
    cases hrecord
    obtain ⟨m, fields, _, hfields, rfl⟩ := members_of_value hl hvalue
    obtain ⟨hend, hR⟩ := (h.inStep_gather m).of_members hblank hm hfields
    refine ⟨hend, fun o ho => ?_⟩
    cases ho
    exact ⟨_, s, hR, ha⟩
  · rename_i hl
    obtain ⟨⟨s, r⟩, hs, hrecord⟩ := bind_eq_ok.1 hrecord
    obtain ⟨a', ha, hrecord⟩ := bind_eq_ok.1 hrecord
    cases hrecord
    obtain ⟨m, items, _, hitems, rfl⟩ := elements_of_value hl hvalue
    refine ⟨end_of_array (fun f hmem => (h.known f hmem m).mono fun _ _ _ => trivial) hs hitems, ?_⟩
    intro o ho
    cases ho
  · cases hrecord

end Layout

end EncryptedColumns.Json
