import EncryptedColumns.Proofs.TypedColumns

/-!
# Integer columns

A column of integers reads the plaintexts that spell an integer within the range of its cast,
as the integer that they spell. A number of 64 bits outside the range is refused as such, and
whatever else the plaintext is, it is refused as no number.
-/

namespace EncryptedColumns

section
variable {cast : Cast} {least greatest : Int64} (h : cast.range? = some (least, greatest))
include h

theorem Cast.kind_of_range? : cast.kind = .integer := by
  cases cast with
  | smallInt | int | bigInt => rfl
  | text | boolean | jsonb => cases h

theorem Cast.holds_iff_of_range? {n : Int64} :
    cast.holds n = true ↔ least.toInt ≤ n.toInt ∧ n.toInt ≤ greatest.toInt := by
  rw [holds, h]
  simp only [Bool.and_eq_true, decide_eq_true_eq, Int64.le_iff_toInt_le]

end

theorem Payload.decodeAs_integer {data : Bytes} {p : String} (hp : plaintext data = .ok p) :
    (∀ n, Integer.read p = .ok n → decodeAs data .integer = .ok (.integer n)) ∧
    ∀ fault, Integer.read p = .error fault → decodeAs data .integer = .error (.malformedNumber p fault) := by
  rw [decodeAs_eq_map_read hp, Kind.read]
  constructor
  · intro n h
    rw [h]
    rfl
  · intro fault h
    rw [h]
    rfl

namespace Registry

section
variable {r : Registry} {table column : String} {spec : ColumnSpec}
  (hspec : r.column table column = .ok spec) {least greatest : Int64}
  (hrange : spec.cast.range? = some (least, greatest))
include hspec hrange

theorem decodeColumn_of_read {data : Bytes} {p : String} (hp : Payload.plaintext data = .ok p)
    {n : Int64} (hn : Integer.read p = .ok n) :
    r.decodeColumn table column data =
      if least.toInt ≤ n.toInt ∧ n.toInt ≤ greatest.toInt then .ok (.integer n)
      else .error (.outOfRange table column spec.cast n) := by
  obtain ⟨specs, ht, hc⟩ := column_eq_ok_iff.1 hspec
  have hkind : spec.kind = .integer := Cast.kind_of_range? hrange
  rw [decodeColumn_eq ht hc, hkind, (Payload.decodeAs_integer hp).1 n hn]
  by_cases hin : least.toInt ≤ n.toInt ∧ n.toInt ≤ greatest.toInt
  · have hholds : spec.checkRange table column (.integer n) = .ok () :=
      if_pos ((Cast.holds_iff_of_range? hrange).2 hin)
    rw [if_pos hin]
    exact bind_eq_ok.2 ⟨_, rfl, bind_eq_ok.2 ⟨(), hholds, rfl⟩⟩
  · have hholds : spec.checkRange table column (.integer n) =
        .error (.outOfRange table column spec.cast n) :=
      if_neg fun h => hin ((Cast.holds_iff_of_range? hrange).1 h)
    rw [if_neg hin]
    show (spec.checkRange table column (.integer n) >>= fun _ => _) = _
    rw [hholds]
    rfl

theorem decodeColumn_of_read_error {data : Bytes} {p : String} (hp : Payload.plaintext data = .ok p)
    {fault : Integer.Fault} (hf : Integer.read p = .error fault) :
    r.decodeColumn table column data = .error (.malformedNumber p fault) := by
  obtain ⟨specs, ht, hc⟩ := column_eq_ok_iff.1 hspec
  have hkind : spec.kind = .integer := Cast.kind_of_range? hrange
  rw [decodeColumn_eq ht hc, hkind, (Payload.decodeAs_integer hp).2 fault hf]
  rfl

omit hrange in
theorem not_isOutOfRange_of_bigInt (hcast : spec.cast = .bigInt) {data : Bytes} {e : Refusal}
    (he : r.decodeColumn table column data = .error e) : ¬ e.IsOutOfRange := by
  intro hout
  obtain ⟨v, n, _, _, hx⟩ := (isOutOfRange_decodeColumn_iff hspec).1 ⟨e, he, hout⟩
  rw [hcast] at hx
  exact hx

/-- **Integer columns.** A plaintext is read from the column as an integer exactly if it spells the
integer and the cast holds it. A number of 64 bits that the cast does not hold is refused with its
value, and a plaintext that spells no number of 64 bits as malformed. A column that is cast as
`big_int` holds them all. -/
theorem decodeColumn_integer_iff :
    (∀ data p, Payload.plaintext data = .ok p →
      (∀ n : Int64, r.decodeColumn table column data = .ok (.integer n) ↔
        Integer.Spells p.toList n.toInt ∧ least.toInt ≤ n.toInt ∧ n.toInt ≤ greatest.toInt) ∧
      (∀ v : Int, Integer.Spells p.toList v → -0x8000000000000000 ≤ v → v < 0x8000000000000000 →
        v < least.toInt ∨ greatest.toInt < v →
        ∃ n : Int64, n.toInt = v ∧
          r.decodeColumn table column data = .error (.outOfRange table column spec.cast n)) ∧
      ((∀ v : Int, Integer.Spells p.toList v → v < -0x8000000000000000 ∨ 0x8000000000000000 ≤ v) →
        ∃ fault, r.decodeColumn table column data = .error (.malformedNumber p fault))) ∧
    (spec.cast = .bigInt → ∀ data e, r.decodeColumn table column data = .error e → ¬ e.IsOutOfRange) := by
  refine ⟨fun data p hp => ⟨fun n => ?_, fun v hv hmin hmax hout => ?_, fun hbeyond => ?_⟩,
    fun hcast data e he => not_isOutOfRange_of_bigInt hspec hcast he⟩
  · rw [← Integer.read_eq_ok_iff]
    constructor
    · intro h
      cases hread : Integer.read p with
      | error fault =>
        rw [decodeColumn_of_read_error hspec hrange hp hread] at h
        cases h
      | ok m =>
        rw [decodeColumn_of_read hspec hrange hp hread] at h
        split at h
        · rename_i hin
          cases h
          exact ⟨rfl, hin⟩
        · cases h
    · intro h
      rw [decodeColumn_of_read hspec hrange hp h.1, if_pos h.2]
  · obtain ⟨n, hn, rfl⟩ := Integer.exists_read_of_spells hv hmin hmax
    refine ⟨n, rfl, ?_⟩
    rw [decodeColumn_of_read hspec hrange hp hn, if_neg (by omega)]
  · cases hread : Integer.read p with
    | error fault => exact ⟨fault, decodeColumn_of_read_error hspec hrange hp hread⟩
    | ok n =>
      -- a number that is read has 64 bits, unlike the one that is spelled
      have hmin := n.le_toInt
      have hmax := n.toInt_lt
      rcases hbeyond _ (Integer.spells_of_read hread) with h | h
      · omega
      · omega

end

def counters : Registry :=
  (empty.insert "t" "small" { cast := .smallInt }).insert "t" "big" { cast := .bigInt }

def spelled (p : String) : Bytes :=
  Bytes.ofString (Envelope.wrap p "t" "c").write

theorem decodeColumn_integer_iff_counters :
    counters.decodeColumn "t" "small" (spelled "+0032767") = .ok (.integer 32767) ∧
    (∃ n : Int64, n.toInt = -32769 ∧ counters.decodeColumn "t" "small" (spelled "-32769") =
      .error (.outOfRange "t" "small" .smallInt n)) ∧
    counters.decodeColumn "t" "big" (spelled "-9223372036854775808") = .ok (.integer Int64.minValue) ∧
    ∃ fault, counters.decodeColumn "t" "big" (spelled "-9223372036854775809") =
      .error (.malformedNumber "-9223372036854775809" fault) := by
  have hsmall : counters.column "t" "small" = .ok { cast := .smallInt } := rfl
  have hbig : counters.column "t" "big" = .ok { cast := .bigInt } := rfl
  have hp (p : String) : Payload.plaintext (spelled p) = .ok p := Payload.plaintext_write _
  obtain ⟨hreadsSmall, _⟩ := decodeColumn_integer_iff hsmall rfl
  obtain ⟨hreadsBig, _⟩ := decodeColumn_integer_iff hbig rfl
  refine ⟨((hreadsSmall _ _ (hp _)).1 32767).2 ⟨?_, by decide, by decide⟩,
    (hreadsSmall _ _ (hp _)).2.1 _ ?_ (by decide) (by decide) (.inl (by decide)),
    ((hreadsBig _ _ (hp _)).1 _).2 ⟨?_, by decide, by decide⟩,
    (hreadsBig _ _ (hp _)).2.2 fun v hv => .inl ?_⟩
  · exact @Integer.Spells.plus "0032767".toList ⟨by decide, List.all_eq_true.1 (by decide)⟩
  · exact @Integer.Spells.minus "32769".toList ⟨by decide, List.all_eq_true.1 (by decide)⟩
  · exact @Integer.Spells.minus "9223372036854775808".toList ⟨by decide, List.all_eq_true.1 (by decide)⟩
  · cases hv with
    | plain hd => exact absurd (hd.digits '-' (List.mem_cons_self ..)) (by decide)
    | minus hd => decide

end Registry

end EncryptedColumns
