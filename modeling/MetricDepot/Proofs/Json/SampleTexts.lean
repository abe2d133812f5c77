import MetricDepot.Proofs.Binary64.Shortest
import MetricDepot.Proofs.Json.Trees
/-!
# Texts of samples — every finite sample survives its text

    The text of a decimal lays its digits out around a point, or in front of an exponent.  It
    is read as a numeral that may have other units and another exponent, since zeros come and
    go with the layout, but has the same value (`spells_decimalText`); and of a decimal only
    the value matters to the sample that it denotes.

    No layout adds so many zeros that digits would be clipped: a shortest decimal has at most
    seventeen digits.
-/

namespace MetricDepot.Json

-- ── Runs of digits ──────────────────────────────────────────────────────────

/-- Whether all bytes of a text are digits. -/
def AllDigits (digits : Bytes) : Prop := ∀ b ∈ digits, Ascii.isDigit b = true

theorem AllDigits.append {front back : Bytes} (hfront : AllDigits front) (hback : AllDigits back) :
    AllDigits (front ++ back) := by
  intro b hb
  rcases List.mem_append.mp hb with hb | hb
  · exact hfront b hb
  · exact hback b hb

theorem allDigits_zeros (k : Nat) : AllDigits (List.replicate k Ascii.zero) := by
  intro b hb
  rw [List.eq_of_mem_replicate hb]
  decide

theorem digitValue_le {b : UInt8} (h : Ascii.isDigit b = true) : Ascii.digitValue b ≤ 9 := by
  have hb : b ≤ 0x39 := by
    rw [Ascii.isDigit, Bool.and_eq_true, decide_eq_true_eq, decide_eq_true_eq] at h
    exact h.2
  have : b.toNat ≤ 57 := UInt8.le_iff_toNat_le.mp hb
  rw [Ascii.digitValue]
  omega

theorem value_append (front back : Bytes) :
    Ascii.value (front ++ back) = Ascii.value front * 10 ^ back.length + Ascii.value back := by
  rw [Ascii.value, List.foldl_append, Ascii.foldl_value_digits]
  rfl

theorem value_zeros (k : Nat) : Ascii.value (List.replicate k Ascii.zero) = 0 := by
  induction k with
  | zero => rfl
  | succ k ih =>
    rw [List.replicate_succ, Ascii.value_cons, ih]
    exact Nat.zero_mul _

theorem value_pad (k : Nat) (digits : Bytes) :
    Ascii.value (List.replicate k Ascii.zero ++ digits) = Ascii.value digits := by
  rw [value_append, value_zeros, Nat.zero_mul, Nat.zero_add]

/-- So many digits denote less than the power of ten with as many zeros. -/
theorem value_lt {digits : Bytes} (h : AllDigits digits) : Ascii.value digits < 10 ^ digits.length := by
  induction digits with
  | nil => decide
  | cons b digits ih =>
    have hb := digitValue_le (h b List.mem_cons_self)
    have hrest := ih fun c hc => h c (List.mem_cons_of_mem b hc)
    rw [Ascii.value_cons, List.length_cons, Nat.pow_succ, Nat.pow_eq]
    nlinarith

/-- The zeros at the end of a fraction, put back. -/
theorem trimFraction_append (digits : Bytes) :
    ∃ k, trimFraction digits ++ List.replicate k Ascii.zero = digits := by
  refine ⟨(digits.reverse.takeWhile (· == Ascii.zero)).length, ?_⟩
  have hzeros : digits.reverse.takeWhile (· == Ascii.zero)
      = List.replicate (digits.reverse.takeWhile (· == Ascii.zero)).length Ascii.zero := by
    refine List.eq_replicate_of_mem fun b hb => ?_
    have hzero : (b == Ascii.zero) = true := List.all_eq_true.mp List.all_takeWhile b hb
    exact eq_of_beq hzero
  have hreverse := congrArg List.reverse
    (List.takeWhile_append_dropWhile (p := (· == Ascii.zero)) (l := digits.reverse))
  rw [List.reverse_append, List.reverse_reverse, hzeros, List.reverse_replicate] at hreverse
  exact hreverse

-- ── Layouts ─────────────────────────────────────────────────────────────────

/-- What goes on with no number: no digit and no point. -/
def Stops (rest : Bytes) : Prop := ∀ b, rest.head? = some b → Ascii.isDigit b = false ∧ b ≠ Ascii.point

theorem digitRun_of_append {digits rest : Bytes} (h : AllDigits digits)
    (hrest : ∀ b, rest.head? = some b → Ascii.isDigit b = false) :
    digitRun (digits ++ rest) = (digits, rest) := by
  rw [digitRun, List.takeWhile_append_of_pos h, List.dropWhile_append_of_pos h]
  cases rest with
  | nil => simp
  | cons b rest =>
    have hb := hrest b rfl
    rw [List.takeWhile_cons_of_neg (by simp [hb]), List.dropWhile_cons_of_neg (by simp [hb]),
      List.append_nil]

/-- The fraction of a number behind its point, if it has one. -/
def fractionText (digits : Bytes) : Bytes := if digits.isEmpty then [] else Ascii.point :: digits

theorem fractionText_of_pos {digits : Bytes} (h : 0 < digits.length) :
    fractionText digits = Ascii.point :: digits := by
  rw [fractionText, if_neg]
  rw [List.isEmpty_iff_length_eq_zero]
  exact h.ne'

theorem fraction?_fractionText {digits rest : Bytes} (h : AllDigits digits) (hrest : Stops rest) :
    fraction? (fractionText digits ++ rest) = some (digits, rest) := by
  rw [fractionText]
  cases digits with
  | nil =>
    rw [List.isEmpty_nil, if_pos rfl, List.nil_append]
    cases rest with
    | nil => rfl
    | cons b rest => rw [fraction?, if_neg (hrest b rfl).2]
  | cons b digits =>
    rw [List.isEmpty_cons, if_neg Bool.false_ne_true, List.cons_append, fraction?, if_pos rfl,
      digitRun_of_append h fun c hc => (hrest c hc).1]
    rfl

/-- Whether digits may stand in front of a point: there is one, and no zero in front of others. -/
def leads (whole : Bytes) : Bool :=
  !(whole.isEmpty || (whole.length != 1 && whole.head? == some Ascii.zero))

/-- A whole part, a fraction and an exponent, one behind the other, are a numeral. -/
theorem unsigned?_layout (negative : Bool) {whole fraction rest : Bytes} {exponent : Option Int}
    (hwhole : AllDigits whole) (hleads : leads whole = true) (hfraction : AllDigits fraction)
    (hrest : Stops rest) (hexponent : exponent? rest = some (exponent, [])) :
    unsigned? negative (whole ++ (fractionText fraction ++ rest))
      = some (⟨negative, ⟨Ascii.value (whole ++ trimFraction fraction),
          exponent.getD 0 - (trimFraction fraction).length⟩,
          fraction.isEmpty && exponent.isNone⟩, []) := by
  have hrun : digitRun (whole ++ (fractionText fraction ++ rest))
      = (whole, fractionText fraction ++ rest) := by
    refine digitRun_of_append hwhole ?_
    intro b hb
    rw [fractionText] at hb
    split at hb
    · exact (hrest b hb).1
    · obtain rfl := Option.some.inj hb
      decide
  rw [leads, Bool.not_eq_true'] at hleads
  rw [unsigned?, hrun]
  dsimp only
  rw [hleads, if_neg Bool.false_ne_true, fraction?_fractionText hfraction hrest, Option.bind_some]
  dsimp only
  rw [hexponent, Option.map_some]

/-- The text is a numeral of the value, of few enough digits to be told apart. -/
def Spells (text : Bytes) (value : ℚ) : Prop :=
  ∀ negative, ∃ n, unsigned? negative text = some (n, []) ∧ n.negative = negative ∧
    n.decimal.value = value ∧ n.decimal.digitCount ≤ Decimal.digitLimit

/-- The value of a layout is that of its digits, as far behind the point as they stand. -/
theorem spells_layout {whole fraction rest : Bytes} {exponent : Option Int} {value : ℚ}
    (hwhole : AllDigits whole) (hleads : leads whole = true) (hfraction : AllDigits fraction)
    (hrest : Stops rest) (hexponent : exponent? rest = some (exponent, []))
    (hlength : whole.length + fraction.length ≤ Decimal.digitLimit)
    (hvalue : Ascii.value (whole ++ fraction) * 10 ^ (exponent.getD 0 - fraction.length) = value) :
    Spells (whole ++ (fractionText fraction ++ rest)) value := by
  intro negative
  obtain ⟨k, hk⟩ := trimFraction_append fraction
  have hparsed := unsigned?_layout negative hwhole hleads hfraction hrest hexponent
  refine ⟨_, hparsed, rfl, ?_, ?_⟩
  · -- the zeros that are trimmed weigh nothing
    have hpower : (10 : ℚ) ^ k * 10 ^ (exponent.getD 0 - fraction.length)
        = 10 ^ (exponent.getD 0 - (trimFraction fraction).length) := by
      have hlen := congrArg List.length hk
      rw [List.length_append, List.length_replicate] at hlen
      rw [← zpow_natCast, ← zpow_add₀ (by norm_num)]
      congr 1
      omega
    have hdigits : Ascii.value (whole ++ fraction)
        = Ascii.value (whole ++ trimFraction fraction) * 10 ^ k := by
      calc Ascii.value (whole ++ fraction)
          = Ascii.value ((whole ++ trimFraction fraction) ++ List.replicate k Ascii.zero) := by
            rw [List.append_assoc, hk]
        _ = Ascii.value (whole ++ trimFraction fraction) * 10 ^ k := by
            rw [value_append, value_zeros, List.length_replicate, Nat.add_zero]
    rw [← hvalue, hdigits, Decimal.value, Nat.cast_mul, Nat.cast_pow, mul_assoc]
    exact congrArg _ hpower.symm
  · have hmem : ∀ b ∈ trimFraction fraction, b ∈ fraction := by
      intro b hb
      rw [← hk]
      exact List.mem_append_left _ hb
    have hdigits : AllDigits (whole ++ trimFraction fraction) :=
      hwhole.append fun b hb => hfraction b (hmem b hb)
    have htrim : (trimFraction fraction).length ≤ fraction.length := by
      have hlen := congrArg List.length hk
      rw [List.length_append] at hlen
      omega
    have hne : 0 < (whole ++ trimFraction fraction).length := by
      rw [List.length_append]
      cases whole with
      | nil => cases hleads
      | cons b whole => exact Nat.lt_add_right _ (Nat.succ_pos _)
    refine (Decimal.digitCount_le hne (value_lt hdigits)).trans ?_
    rw [List.length_append]
    omega

-- ── Texts of decimals ───────────────────────────────────────────────────────

theorem stops_nil : Stops [] := fun _ h => nomatch h

theorem allDigits_natural (n : Nat) : AllDigits (Ascii.natural n) := Ascii.isDigit_of_mem_natural n

/-- The digits of a number that is not zero may stand in front, all of them or some. -/
theorem leads_natural {n : Nat} (hn : n ≠ 0) {whole : Bytes} (hne : whole ≠ [])
    (hhead : whole.head? = (Ascii.natural n).head?) : leads whole = true := by
  have hzero : (Ascii.natural n).head? ≠ some Ascii.zero :=
    head?_naturalOnto (Nat.lt_succ_self n) (Nat.pos_of_ne_zero hn) []
  rw [leads, hhead, beq_eq_false_iff_ne.mpr hzero, Bool.and_false, Bool.or_false,
    List.isEmpty_eq_false_iff.mpr hne]
  rfl

variable {d : Decimal}

/-- The text of an exponent is read. -/
theorem exponent?_text (e : Int) :
    exponent? (Ascii.letterE :: (if e < 0 then Ascii.minus else Ascii.plus) :: Ascii.natural e.natAbs)
      = some (some e, []) := by
  have hrun := digitRun_of_digits (allDigits_natural e.natAbs)
  have hne : (Ascii.natural e.natAbs).isEmpty = false :=
    List.isEmpty_eq_false_iff.mpr (Ascii.natural_ne_nil _)
  have hsign : exponentSign ((if e < 0 then Ascii.minus else Ascii.plus) :: Ascii.natural e.natAbs)
      = (decide (e < 0), Ascii.natural e.natAbs) := by
    by_cases hnegative : e < 0
    · rw [if_pos hnegative, decide_eq_true hnegative]
      rfl
    · rw [if_neg hnegative, decide_eq_false hnegative]
      rfl
  rw [exponent?, if_pos (Or.inl rfl), hsign]
  dsimp only
  rw [hrun]
  dsimp only
  rw [hne, if_neg Bool.false_ne_true, Ascii.value_natural]
  by_cases hnegative : e < 0
  · rw [if_pos (decide_eq_true hnegative), show -((e.natAbs : Nat) : Int) = e by omega]
  · rw [if_neg (by rw [decide_eq_false hnegative]; decide), show ((e.natAbs : Nat) : Int) = e by omega]

theorem length_digits (d : Decimal) : (Ascii.natural d.units).length = d.digitCount := rfl

theorem digits_pos (d : Decimal) : 0 < (Ascii.natural d.units).length :=
  List.length_pos_iff.mpr (Ascii.natural_ne_nil d.units)

/-- The first digits of a decimal that is not zero may stand in front of a point. -/
theorem leads_take (hunits : d.units ≠ 0) {k : Nat} (hk : k ≠ 0) :
    leads ((Ascii.natural d.units).take k) = true := by
  refine leads_natural hunits ?_ ?_
  · refine List.ne_nil_of_length_pos ?_
    have := digits_pos d
    rw [List.length_take]
    omega
  · rw [List.head?_take, if_neg hk]

theorem spells_scientific (hunits : d.units ≠ 0) (hdigits : d.digitCount ≤ 17) :
    Spells (scientific (Ascii.natural d.units) (d.top - 1)) d.value := by
  have htext : scientific (Ascii.natural d.units) (d.top - 1)
      = (Ascii.natural d.units).take 1 ++ (fractionText ((Ascii.natural d.units).drop 1) ++
          Ascii.letterE :: (if d.top - 1 < 0 then Ascii.minus else Ascii.plus) ::
            Ascii.natural (d.top - 1).natAbs) := by
    have hempty : ((Ascii.natural d.units).drop 1).isEmpty = true ↔ (Ascii.natural d.units).length ≤ 1 := by
      rw [List.isEmpty_iff, List.drop_eq_nil_iff]
    rw [scientific, fractionText, List.append_assoc]
    simp only [hempty]
  have hpos := digits_pos d
  have hcount := length_digits d
  rw [htext]
  refine spells_layout ?_ (leads_take hunits Nat.one_ne_zero) ?_ ?_ (exponent?_text _) ?_ ?_
  · exact fun b hb => allDigits_natural _ b (List.mem_of_mem_take hb)
  · exact fun b hb => allDigits_natural _ b (List.mem_of_mem_drop hb)
  · intro b hb
    obtain rfl := Option.some.inj hb
    decide
  · rw [List.length_take, List.length_drop, Decimal.digitLimit]
    omega
  · rw [List.take_append_drop, Ascii.value_natural, Option.getD_some, List.length_drop, Decimal.value,
      Decimal.top]
    congr 2
    omega

theorem spells_positional (hunits : d.units ≠ 0) (hdigits : d.digitCount ≤ 17) (hlow : -5 ≤ d.top - 1)
    (hhigh : d.top - 1 < 16) : Spells (positional (Ascii.natural d.units) d.top) d.value := by
  have htop : d.top = (Ascii.natural d.units).length + d.exponent := rfl
  have hcount := length_digits d
  have hpos := digits_pos d
  have hall := allDigits_natural d.units
  rw [positional]
  split
  next hsmall =>
    -- all digits stand behind the point, and zeros in front of them
    have hfraction : AllDigits (List.replicate (-d.top).toNat Ascii.zero ++ Ascii.natural d.units) :=
      (allDigits_zeros _).append hall
    have hlength : (List.replicate (-d.top).toNat Ascii.zero ++ Ascii.natural d.units).length
        = (-d.top).toNat + d.digitCount := by
      rw [List.length_append, List.length_replicate, hcount]
    have htext : Spells ([Ascii.zero] ++ (fractionText (List.replicate (-d.top).toNat Ascii.zero
        ++ Ascii.natural d.units) ++ [])) d.value := by
      refine spells_layout (allDigits_zeros 1) rfl hfraction stops_nil rfl ?_ ?_
      · rw [hlength, List.length_singleton, Decimal.digitLimit]
        omega
      · have hvalue := value_pad (1 + (-d.top).toNat) (Ascii.natural d.units)
        rw [← List.replicate_append_replicate, List.append_assoc, Ascii.value_natural] at hvalue
        rw [hlength, show [Ascii.zero] = List.replicate 1 Ascii.zero from rfl, hvalue, Option.getD_none,
          Decimal.value]
        congr 2
        omega
    rw [List.append_nil, fractionText_of_pos (by omega)] at htext
    exact htext
  next hlarge =>
    split
    next hwhole =>
      -- all digits stand in front of the point, and zeros behind them
      have htext : Spells ((Ascii.natural d.units
          ++ List.replicate (d.top - (Ascii.natural d.units).length).toNat Ascii.zero)
          ++ (fractionText [Ascii.zero] ++ [])) d.value := by
        refine spells_layout (hall.append (allDigits_zeros _)) ?_ (allDigits_zeros 1) stops_nil rfl ?_ ?_
        · refine leads_natural hunits (List.append_ne_nil_of_left_ne_nil (Ascii.natural_ne_nil _) _) ?_
          exact List.head?_append_of_ne_nil _ (Ascii.natural_ne_nil _)
        · rw [List.length_append, List.length_replicate, List.length_singleton, Decimal.digitLimit]
          omega
        · rw [value_append, value_append, value_zeros, Ascii.value_natural, List.length_replicate,
            Option.getD_none, List.length_singleton, Decimal.value, show Ascii.value [Ascii.zero] = 0 from rfl]
          have hzeros : ((d.top - (Ascii.natural d.units).length).toNat : ℤ) = d.exponent := by omega
          push_cast
          rw [add_zero, add_zero, zpow_neg_one, mul_inv_cancel_right₀ (by norm_num), ← zpow_natCast, hzeros]
      exact htext
    next hsplit =>
      -- the point stands between the digits
      have htext : Spells ((Ascii.natural d.units).take d.top.toNat
          ++ (fractionText ((Ascii.natural d.units).drop d.top.toNat) ++ [])) d.value := by
        refine spells_layout ?_ (leads_take hunits (by omega)) ?_ stops_nil rfl ?_ ?_
        · exact fun b hb => hall b (List.mem_of_mem_take hb)
        · exact fun b hb => hall b (List.mem_of_mem_drop hb)
        · rw [List.length_take, List.length_drop, Decimal.digitLimit]
          omega
        · rw [List.take_append_drop, Ascii.value_natural, Option.getD_none, List.length_drop, Decimal.value]
          congr 2
          omega
      rw [List.append_nil, fractionText_of_pos (by rw [List.length_drop]; omega)] at htext
      exact htext

/-- **The text of a decimal is a numeral of its value.** -/
theorem spells_decimalText (hunits : d.units ≠ 0) (hdigits : d.digitCount ≤ 17) :
    Spells (decimalText d) d.value := by
  rw [decimalText]
  split
  next h => exact spells_positional hunits hdigits h.1 h.2
  next => exact spells_scientific hunits hdigits

-- ── Texts of samples ────────────────────────────────────────────────────────

variable {x : Binary64}

/-- A numeral without a sign gets one in front. -/
theorem numeral?_of_unsigned? {negative : Bool} {text : Bytes} {n : Numeral}
    (h : unsigned? negative text = some (n, [])) :
    numeral? (if negative then Ascii.minus :: text else text) = some (n, []) := by
  cases negative with
  | true => exact (numeral?_eq (Ascii.minus :: text)).trans h
  | false =>
    rw [if_neg Bool.false_ne_true, numeral?_eq]
    cases text with
    | nil => cases h
    | cons b rest =>
      have hb : b ≠ Ascii.minus := by
        rintro rfl
        cases h
      rw [sign, if_neg hb]
      exact h

/-- The size of a sample is written as a decimal that denotes it. -/
theorem spells_size (h : x.isFinite = true) :
    ∃ d : Decimal, Spells (if x.isZero then [Ascii.zero, Ascii.point, Ascii.zero] else decimalText x.shortest)
        d.value ∧ Binary64.nearest? false d = some (Binary64.ofMagnitude false x.magnitude) := by
  cases hzero : x.isZero with
  | true =>
    have hmagnitude : x.magnitude = 0 := eq_of_beq hzero
    refine ⟨⟨0, 0⟩, ?_, ?_⟩
    · have htext : Spells ([Ascii.zero] ++ (fractionText [Ascii.zero] ++ [])) (⟨0, 0⟩ : Decimal).value := by
        refine spells_layout (allDigits_zeros 1) rfl (allDigits_zeros 1) stops_nil rfl (by decide) ?_
        rw [show Ascii.value ([Ascii.zero] ++ [Ascii.zero]) = 0 from rfl, Decimal.value, Nat.cast_zero,
          zero_mul, zero_mul]
      exact htext
    · rw [Binary64.nearest?, if_pos rfl, hmagnitude]
  | false =>
    obtain ⟨hdenotes, hdigits⟩ := Binary64.shortest_spec h hzero
    have hunits : x.shortest.units ≠ 0 := by
      intro hunits
      rw [Binary64.nearest?, if_pos hunits] at hdenotes
      have hmagnitude := congrArg Binary64.magnitude (Option.some.inj hdenotes)
      rw [Binary64.magnitude_ofMagnitude false (by decide),
        Binary64.magnitude_ofMagnitude false (Nat.lt_trans (of_decide_eq_true h) (by decide))] at hmagnitude
      exact absurd hmagnitude.symm (beq_eq_false_iff_ne.mp hzero)
    exact ⟨x.shortest, spells_decimalText hunits hdigits, hdenotes⟩

/-- **Every finite sample survives its text.** -/
theorem survives_of_isFinite (h : x.isFinite = true) : Survives x := by
  obtain ⟨d, hspells, hdenotes⟩ := spells_size h
  obtain ⟨n, hparsed, hsign, hvalue, hdigits⟩ := hspells x.isNegative
  refine ⟨n, numeral?_of_unsigned? hparsed, ?_⟩
  have hmagnitude : x.magnitude < 0x8000000000000000 := Nat.lt_trans (of_decide_eq_true h) (by decide)
  rw [Numeral.toBinary64?, Decimal.clipped_of_le hdigits, hsign, Binary64.nearest?_congr _ hvalue,
    Binary64.nearest?_sign, hdenotes, Option.map_some, Binary64.magnitude_ofMagnitude false hmagnitude,
    Binary64.ofMagnitude_parts]

/-- A numeral of the sample is read as the sample. -/
theorem reads_sample {text : Bytes} {n : Numeral} (h : numeral? text = some (n, []))
    (hvalue : n.toBinary64? = some x) : Reads sample text x := by
  have hread : Reads (do orFail (← numeral).toBinary64?) text x := by
    refine (reads_numeral h).bind_pure fun rest => ?_
    rw [hvalue]
    rfl
  intro rest hrest
  obtain ⟨b, tail, rfl, hfirst⟩ := first_of_numeral? h
  have hquote : b ≠ Ascii.quote := by
    rintro rfl
    exact absurd hfirst (by decide)
  have hrest := hread rest hrest
  rw [List.cons_append] at hrest ⊢
  rw [sample, bind_of_ok (peek_cons (isBlank_of_first hfirst) _), if_neg hquote]
  exact hrest

/-- **A finite sample is a number that is read as its very bits**, wherever a sample is read: as
    a document, as a field of a document that goes by, and out of a tree. -/
theorem sample_of_sampleText (h : x.isFinite = true) :
    (∃ n, numeral? (sampleText x) = some (n, []) ∧ n.toBinary64? = some x) ∧
      document sample (sampleText x) = .ok x ∧ Reads sample (sampleText x) x ∧
      ∀ room, Shows room held.sample (sampleText x) x := by
  have htext : sampleText x = finiteText x := if_pos h
  obtain ⟨n, hnumeral, hvalue⟩ := survives_of_isFinite h
  rw [← htext] at hnumeral
  have hreads := reads_sample hnumeral hvalue
  refine ⟨⟨n, hnumeral, hvalue⟩, document_of_reads hreads, hreads, fun room => ?_⟩
  have hshows := Shows.sample room survives_of_isFinite (x := x)
  rwa [Binary64.canonical_of_finite h] at hshows

/-- The least sample above zero has the text `5e-324`. -/
theorem sample_of_sampleText_least :
    (⟨1⟩ : Binary64).isFinite = true ∧ document sample (sampleText ⟨1⟩) = .ok ⟨1⟩ :=
  ⟨by decide, (sample_of_sampleText (by decide)).2.1⟩

end MetricDepot.Json
