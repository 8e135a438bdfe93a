import EncryptedColumns.Payload
import EncryptedColumns.Proofs.ReadersAgree

/-!
# Two readers of one envelope

The bytes of an envelope are read for its fields, or as a payload for the plaintext alone.
The first reader refuses a field that comes twice and passes over what it does not know,
the second builds all of it and keeps the later of two fields. Where both take the bytes,
they find the same plaintext and the same tag.
-/

namespace EncryptedColumns

namespace ColumnRef

theorem tracks_layout : layout.Tracks fun _ _ => True where
  known := by
    have htext {name : String} {isSet : Draft → Bool} (update : String → Draft → Draft) :
        Json.Field.Tracks ⟨name, isSet, Json.text.map update⟩ fun _ _ => True :=
      Json.Field.tracks_map Json.agree_text fun _ _ _ _ _ _ => trivial
    simp only [layout, List.forall_mem_cons]
    exact ⟨htext _, htext _, List.forall_mem_nil _⟩
  unknown _ _ _ _ _ _ := trivial

theorem agree_reader (n : Nat) : Json.Agree reader (Json.value n) fun _ _ => True :=
  (tracks_layout.agree_reader trivial n).mono fun _ _ _ => trivial

end ColumnRef

namespace Envelope

structure Draft.Matches (d : Draft) (o : Object) : Prop where
  tag : ∀ s ∈ d.tag, o.find? "k" = some (.string s)
  plaintext : ∀ s ∈ d.plaintext, o.find? "p" = some (.string s)

namespace Draft.Matches

variable {d : Draft} {o : Object} (h : d.Matches o)
include h

theorem insert {key : String} (hk : key ≠ "k") (hp : key ≠ "p") (v : Json) :
    d.Matches (o.insert key v) where
  tag s hs := by rw [Object.find?_insert_of_ne hk.symm]; exact h.tag s hs
  plaintext s hs := by rw [Object.find?_insert_of_ne hp.symm]; exact h.plaintext s hs

theorem setTag (s : String) : Matches { d with tag := some s } (o.insert "k" (.string s)) where
  tag t ht := by
    cases ht
    exact Object.find?_insert_self o "k" _
  plaintext t ht := by
    rw [Object.find?_insert_of_ne (by decide)]
    exact h.plaintext t ht

theorem setPlaintext (s : String) :
    Matches { d with plaintext := some s } (o.insert "p" (.string s)) where
  tag t ht := by
    rw [Object.find?_insert_of_ne (by decide)]
    exact h.tag t ht
  plaintext t ht := by
    cases ht
    exact Object.find?_insert_self o "p" _

end Draft.Matches

theorem tracks_layout : layout.Tracks Draft.Matches where
  known := by
    simp only [layout, List.forall_mem_cons]
    refine ⟨?tag, ?plaintext, ?target, ?version, List.forall_mem_nil _⟩
    case tag =>
      refine Json.Field.tracks_map Json.agree_text fun s v hv d o h => ?_
      cases hv
      exact h.setTag s
    case plaintext =>
      refine Json.Field.tracks_map Json.agree_text fun s v hv d o h => ?_
      cases hv
      exact h.setPlaintext s
    case target =>
      refine Json.Field.tracks_map ColumnRef.agree_reader fun r v _ d o h => ?_
      obtain ⟨htag, hplaintext⟩ := h.insert (by decide : "i" ≠ "k") (by decide) v
      exact ⟨htag, hplaintext⟩
    case version =>
      refine Json.Field.tracks_map Json.agree_word32 fun n v _ d o h => ?_
      obtain ⟨htag, hplaintext⟩ := h.insert (by decide : "v" ≠ "k") (by decide) v
      exact ⟨htag, hplaintext⟩
  unknown d o key v hnone h := by
    have hother := List.find?_eq_none.1 hnone
    simp only [layout, List.forall_mem_cons, decide_eq_true_eq] at hother
    exact h.insert (Ne.symm hother.1) (Ne.symm hother.2.1) v

theorem agree_reader (n : Nat) : Json.Agree reader (Json.value n) fun e j => ∀ o : Object, j = .object o →
    o.find? "k" = some (.string e.tag) ∧ o.find? "p" = some (.string e.plaintext) := by
  have hblank : Draft.Matches {} [] := ⟨fun s hs => (nomatch hs), fun s hs => (nomatch hs)⟩
  refine (tracks_layout.agree_reader hblank n).mono ?_
  intro e j h o ho
  obtain ⟨missing, d, hd, hc⟩ := h o ho
  obtain ⟨tag, htag, hc⟩ := bind_eq_ok.1 hc
  obtain ⟨plaintext, hplaintext, hc⟩ := bind_eq_ok.1 hc
  obtain ⟨target, _, hc⟩ := bind_eq_ok.1 hc
  obtain ⟨version, _, hc⟩ := bind_eq_ok.1 hc
  cases hc
  exact ⟨hd.tag tag (Json.due_eq_ok.1 htag), hd.plaintext plaintext (Json.due_eq_ok.1 hplaintext)⟩

end Envelope

namespace Payload

theorem parse_of_fields {data : Bytes} {o : Object} (h : fields data = .ok o) :
    Json.parse data = .ok (.object o) := by
  unfold fields at h
  split at h
  · cases h
  · cases h
    assumption
  · cases h

theorem fields_of_plaintext {data : Bytes} {p : String} (h : plaintext data = .ok p) :
    ∃ o, fields data = .ok o ∧ o.find? "p" = some (.string p) := by
  obtain ⟨o, ho, h⟩ := bind_eq_ok.1 h
  refine ⟨o, ho, ?_⟩
  split at h
  · cases h
    assumption
  · cases h

/-- **Two readers.** A text that is read as an envelope and as a payload gives one plaintext and one
tag, however its fields are ordered and spelled and whatever else it holds. -/
theorem agrees_with_envelope {data : Bytes} {e : Envelope} {p : String}
    (he : Envelope.reader.readAll data = .ok e) (hp : plaintext data = .ok p) :
    p = e.plaintext ∧ tag data = .ok (Tag.ofName? e.tag) := by
  obtain ⟨o, ho, hfind⟩ := fields_of_plaintext hp
  obtain ⟨htag, hplaintext⟩ :=
    (Envelope.agree_reader Json.nestingLimit).of_readAll he (parse_of_fields ho) o rfl
  constructor
  · have heq := hfind.symm.trans hplaintext
    cases heq
    rfl
  · rw [tag, ho]
    simp only [bind, Except.bind, htag]
    rfl

def shuffled : Bytes :=
  Bytes.ofString (" \x7b\"x\" : [1, \x7b\"p\": \"no\"\x7d], \"\\u0070\": \"7\", \"v\":1 ,\n" ++
    "\"i\":\x7b\"c\":\"age\",\"y\":\x7b\"k\":[]\x7d,\"t\":\"users\"\x7d," ++
    "\"k\":\"p\\u0074\",\"z\":-1.5e3\x7d ")

theorem agrees_with_envelope_shuffled :
    Envelope.reader.readAll shuffled = .ok ⟨"pt", "7", ⟨"users", "age"⟩, 1⟩ ∧
    plaintext shuffled = .ok "7" ∧ tag shuffled = .ok (some .plaintext) := by
  have he : Envelope.reader.readAll shuffled = .ok ⟨"pt", "7", ⟨"users", "age"⟩, 1⟩ := by
    decide +kernel
  have hp : plaintext shuffled = .ok "7" := by decide +kernel
  exact ⟨he, hp, (agrees_with_envelope he hp).2⟩

end Payload

end EncryptedColumns