import Docmark.Proofs.QuotedText

/-!
How the words of a JSON text are written. A text of words with space between them is cut into these
words, and a text that is cut without a fault consists of what comes out.
-/

namespace Docmark.Json

open Reference (Numeral)

inductive WholeText : Text → Prop
  | zero : WholeText ['0']
  | digits {d : Char} {ds : Text} : d.isDigit = true → d ≠ '0' → ds.all Char.isDigit = true →
    WholeText (d :: ds)

inductive FractionText : (digits : Text) → Text → Prop
  | none : FractionText [] []
  | point {digits : Text} : digits ≠ [] → digits.all Char.isDigit = true →
    FractionText digits ('.' :: digits)

inductive SignText : (negative : Bool) → Text → Prop
  | none : SignText false []
  | plus : SignText false ['+']
  | minus : SignText true ['-']

inductive ScaleText : Int → Text → Prop
  | none : ScaleText 0 []
  | exponent {mark : Char} {negative : Bool} {sign digits : Text} {n : Nat} :
    mark = 'e' ∨ mark = 'E' → SignText negative sign → Numeral 10 digits n →
      ScaleText (if negative then -n else n) (mark :: (sign ++ digits))

inductive NumberText : Decimal → Text → Prop
  | intro {minus whole fraction point scale : Text} {exponent : Int} :
    minus = [] ∨ minus = ['-'] → WholeText whole → FractionText fraction point →
      ScaleText exponent scale →
      NumberText (.ofDigits whole fraction exponent) (minus ++ (whole ++ (point ++ scale)))

def Ends (rest : Text) : Prop :=
  ∀ c ∈ rest.head?, c.isDigit = false ∧ c ≠ '.' ∧ c ≠ 'e' ∧ c ≠ 'E'

theorem exists_numeral {digits : Text} (hne : digits ≠ []) (h : digits.all Char.isDigit = true) :
    ∃ n, Numeral 10 digits n := by
  have hdigit {c : Char} (hc : c.isDigit = true) : ∃ v, v < 10 ∧ Reference.DigitOf v c := by
    rw [Char.isDigit, Bool.and_eq_true, decide_eq_true_eq, decide_eq_true_eq] at hc
    have hrange : 48 ≤ c.toNat ∧ c.toNat ≤ 57 := hc
    exact ⟨c.toNat - 48, by omega, Reference.digitOf_of_code (by omega) (by omega)⟩
  induction digits using List.reverseRecOn with
  | nil => exact absurd rfl hne
  | append_singleton before c ih =>
    rw [List.all_append, Bool.and_eq_true] at h
    obtain ⟨v, hv, hc⟩ := hdigit (List.all_eq_true.1 h.2 c List.mem_cons_self)
    by_cases hempty : before = []
    · subst hempty
      exact ⟨v, .digit hv hc⟩
    · obtain ⟨n, hn⟩ := ih hempty h.1
      exact ⟨_, .more hn hv hc⟩

def Scalar.IsWhole (s : Scalar) : Prop :=
  (Value.scalar s).passed? = none

namespace Token

section Numbers

variable {whole fraction point scale rest : Text} {exponent : Int}

theorem cutSign_text {negative : Bool} {sign t : Text} (h : SignText negative sign)
    (ht : ∀ c ∈ t.head?, c.isDigit = true) : cutSign (sign ++ t) = (negative, t) := by
  cases h with
  | plus | minus => rfl
  | none =>
    rw [List.nil_append]
    unfold cutSign
    split
    · exact absurd (ht _ rfl) (by decide)
    · exact absurd (ht _ rfl) (by decide)
    · rfl

theorem readExponent_text {negative : Bool} {sign digits : Text} {n : Nat}
    (hsign : SignText negative sign) (h : Numeral 10 digits n) (hrest : Ends rest) :
    readExponent whole fraction (sign ++ (digits ++ rest)) =
      finish whole fraction (if negative then -n else n) rest := by
  have hall := h.isDigit
  have hhead : ∀ c ∈ (digits ++ rest).head?, c.isDigit = true := by
    obtain ⟨d, ds, rfl⟩ := List.exists_cons_of_ne_nil h.ne_nil
    rintro _ ⟨⟩
    exact hall d List.mem_cons_self
  have htake : (digits ++ rest).takeWhile Char.isDigit = digits :=
    Text.takeWhile_append hall fun c hc => (hrest c hc).1
  have hdrop : (digits ++ rest).dropWhile Char.isDigit = rest :=
    Text.dropWhile_append hall fun c hc => (hrest c hc).1
  rw [readExponent, cutSign_text hsign hhead]
  dsimp only
  rw [htake, hdrop]
  split
  · exact absurd rfl h.ne_nil
  · rw [h.numberFrom?_eq (by omega)]
    rfl

theorem readScale_text (h : ScaleText exponent scale) (hrest : Ends rest) :
    readScale whole fraction (scale ++ rest) = finish whole fraction exponent rest := by
  cases h with
  | none =>
    rw [List.nil_append]
    unfold readScale
    split
    · exact absurd rfl (hrest _ rfl).2.2.1
    · exact absurd rfl (hrest _ rfl).2.2.2
    · rfl
  | exponent hmark hsign hdigits =>
    have hread : readExponent whole fraction _ = _ := readExponent_text hsign hdigits hrest
    rw [List.cons_append, List.append_assoc]
    rcases hmark with rfl | rfl
    · exact hread
    · exact hread

theorem head_scale (h : ScaleText exponent scale) (hrest : Ends rest) :
    ∀ c ∈ (scale ++ rest).head?, c.isDigit = false ∧ c ≠ '.' := by
  cases h with
  | none =>
    intro c hc
    exact ⟨(hrest c hc).1, (hrest c hc).2.1⟩
  | exponent hmark hsign hdigits =>
    rintro _ ⟨⟩
    rcases hmark with rfl | rfl <;> decide

theorem readFraction_text (hp : FractionText fraction point) (hs : ScaleText exponent scale)
    (hrest : Ends rest) :
    readFraction whole (point ++ (scale ++ rest)) = finish whole fraction exponent rest := by
  have hhead := head_scale hs hrest
  cases hp with
  | none =>
    rw [List.nil_append, ← readScale_text hs hrest]
    unfold readFraction
    split
    · next heq => exact absurd rfl (hhead '.' (by rw [heq]; rfl)).2
    · rfl
  | point hne hall =>
    have hdigits := List.all_eq_true.1 hall
    rw [List.cons_append, readFraction, Text.takeWhile_append hdigits fun c hc => (hhead c hc).1,
      Text.dropWhile_append hdigits fun c hc => (hhead c hc).1, ← readScale_text hs hrest]
    split
    · exact absurd rfl hne
    · rfl

theorem head_fraction (hp : FractionText fraction point) (hs : ScaleText exponent scale)
    (hrest : Ends rest) : ∀ c ∈ (point ++ (scale ++ rest)).head?, c.isDigit = false := by
  cases hp with
  | none => exact fun c hc => (head_scale hs hrest c hc).1
  | point =>
    rintro _ ⟨⟩
    rfl

theorem readNumber_text {first : Char} {digits : Text} (hw : WholeText (first :: digits))
    (hp : FractionText fraction point) (hs : ScaleText exponent scale) (hrest : Ends rest) :
    readNumber first (digits ++ (point ++ (scale ++ rest))) =
      finish (first :: digits) fraction exponent rest := by
  have hhead := head_fraction hp hs hrest
  cases hw with
  | zero =>
    have hstop : ¬ (point ++ (scale ++ rest)).head?.any Char.isDigit = true := by
      rw [Option.any_eq_true]
      rintro ⟨c, hc, hdigit⟩
      exact Bool.false_ne_true ((hhead c hc).symm.trans hdigit)
    rw [List.nil_append, readNumber, if_pos rfl, if_neg hstop, readFraction_text hp hs hrest]
  | digits hfirst hne hall =>
    have hdigits := List.all_eq_true.1 hall
    rw [readNumber, if_neg hne, Text.takeWhile_append hdigits hhead, Text.dropWhile_append hdigits hhead,
      readFraction_text hp hs hrest]

end Numbers

inductive Written : Token → Text → Prop
  | beginArray : Written .beginArray ['[']
  | endArray : Written .endArray [']']
  | beginObject : Written .beginObject ['\x7b']
  | endObject : Written .endObject ['\x7d']
  | comma : Written .comma [',']
  | colon : Written .colon [':']
  | null : Written (.scalar .null) "null"
  | yes : Written (.scalar (.bool true)) "true"
  | no : Written (.scalar (.bool false)) "false"
  | number {d : Decimal} {t : Text} : NumberText d t → Written (.scalar (.number d.fitsDouble)) t
  | text {parts : List Part} {t : Text} : Quoted.Written parts t →
    Written (.scalar (.text ⟨parts, none⟩)) ('"' :: (t ++ ['"']))

def isScalar : Token → Bool
  | .scalar _ => true
  | _ => false

theorem ne_of_isDigit {c d : Char} (h : c.isDigit = true) (hd : d.isDigit = false) : c ≠ d := by
  rintro rfl
  exact Bool.false_ne_true (hd.symm.trans h)

theorem punctuation?_of_isDigit {c : Char} (h : c.isDigit = true) : punctuation? c = none := by
  unfold punctuation?
  split
  all_goals first
    | rfl
    | exact absurd h (by decide)

theorem readScalar_of_isDigit {c : Char} (h : c.isDigit = true) (t : Text) :
    readScalar c t = readNumber c t := by
  have hne (d : Char) (hd : d.isDigit = false) : c ≠ d := ne_of_isDigit h hd
  rw [readScalar, if_neg (hne '"' rfl), if_neg (hne 'n' rfl), if_neg (hne 't' rfl), if_neg (hne 'f' rfl),
    if_neg (hne '-' rfl), if_pos h]

theorem isSpace_of_isDigit {c : Char} (h : c.isDigit = true) : isSpace c = false := by
  have hne (d : Char) (hd : d.isDigit = false) : (c == d) = false := beq_false_of_ne (ne_of_isDigit h hd)
  rw [isSpace, hne ' ' rfl, hne '\n' rfl, hne '\r' rfl, hne '\t' rfl]
  rfl

theorem isDigit_of_wholeText {d : Char} {ds : Text} (h : WholeText (d :: ds)) : d.isDigit = true := by
  cases h with
  | zero => rfl
  | digits hd => exact hd

theorem read_of_punctuation? {c : Char} (h : punctuation? c = none) (t : Text) :
    Token.read c t = (.scalar (readScalar c t).1, (readScalar c t).2) := by
  rw [Token.read, h]
  rfl

theorem read_number {d : Decimal} {w rest : Text} (h : NumberText d w) (hrest : Ends rest) :
    ∃ c t, w = c :: t ∧ (c.isDigit = true ∨ c = '-') ∧
      readScalar c (t ++ rest) = (.number d.fitsDouble, rest) := by
  cases h with
  | @intro minus whole fraction point scale exponent hminus hwhole hpoint hscale =>
    obtain ⟨first, digits, rfl⟩ : ∃ first digits, whole = first :: digits := by
      cases hwhole <;> exact ⟨_, _, rfl⟩
    have hfirst := isDigit_of_wholeText hwhole
    have hread := readNumber_text hwhole hpoint hscale hrest
    rcases hminus with rfl | rfl
    · refine ⟨first, digits ++ (point ++ scale), rfl, .inl hfirst, ?_⟩
      rw [readScalar_of_isDigit hfirst, List.append_assoc, List.append_assoc]
      exact hread
    · refine ⟨'-', first :: digits ++ (point ++ scale), rfl, .inr rfl, ?_⟩
      have hnegative : readNegative (first :: (digits ++ (point ++ (scale ++ rest)))) =
          finish (first :: digits) fraction exponent rest := by
        rw [readNegative, if_pos hfirst]
        exact hread
      rw [readScalar, if_neg (by decide), if_neg (by decide), if_neg (by decide), if_neg (by decide),
        if_pos rfl, List.append_assoc, List.append_assoc, List.cons_append]
      exact hnegative

theorem read_written {token : Token} {w rest : Text} (h : Written token w)
    (hrest : token.isScalar = true → Ends rest) :
    ∃ c t, w = c :: t ∧ isSpace c = false ∧ Token.read c (t ++ rest) = (token, rest) := by
  cases h with
  | beginArray | endArray | beginObject | endObject | comma | colon => exact ⟨_, _, rfl, rfl, rfl⟩
  | null | yes | no => exact ⟨_, _, rfl, rfl, rfl⟩
  | @text parts t hw =>
    refine ⟨_, _, rfl, rfl, ?_⟩
    have hscan := Quoted.scan_written hw rest
    rw [read_of_punctuation? rfl, readScalar, if_pos rfl, List.append_assoc, List.singleton_append, hscan]
    rfl
  | @number d t hn =>
    obtain ⟨c, t, rfl, hc, hscalar⟩ := read_number hn (hrest rfl)
    have hword : punctuation? c = none ∧ isSpace c = false := by
      rcases hc with hc | rfl
      · exact ⟨punctuation?_of_isDigit hc, isSpace_of_isDigit hc⟩
      · exact ⟨rfl, rfl⟩
    exact ⟨c, t, rfl, hword.2, by rw [read_of_punctuation? hword.1, hscalar]⟩

variable {whole fraction t rest : Text} {s : Scalar}

theorem exists_sign (t : Text) : ∃ sign, SignText (cutSign t).1 sign ∧ t = sign ++ (cutSign t).2 := by
  unfold cutSign
  split
  · exact ⟨_, .minus, rfl⟩
  · exact ⟨_, .plus, rfl⟩
  · exact ⟨_, .none, rfl⟩

theorem exists_numeral_takeWhile {d : Char} {ds : Text} (h : t.takeWhile Char.isDigit = d :: ds) :
    ∃ n, Numeral 10 (d :: ds) n :=
  exists_numeral (List.cons_ne_nil d ds) (h ▸ List.all_takeWhile)

theorem written_of_readExponent (h : readExponent whole fraction t = (s, rest)) (hs : s.IsWhole) :
    ∃ negative sign digits n, SignText negative sign ∧ Numeral 10 digits n ∧
      t = sign ++ (digits ++ rest) ∧
      s = .number (Decimal.ofDigits whole fraction (if negative then -n else n)).fitsDouble := by
  obtain ⟨sign, hsign, ht⟩ := exists_sign t
  have hcut := List.takeWhile_append_dropWhile (p := Char.isDigit) (l := (cutSign t).2)
  cases hdigits : (cutSign t).2.takeWhile Char.isDigit with
  | nil =>
    rw [readExponent, hdigits] at h
    cases h
    cases hs
  | cons d ds =>
    obtain ⟨n, hn⟩ := exists_numeral_takeWhile hdigits
    rw [readExponent, hdigits] at h
    dsimp only at h
    rw [hn.numberFrom?_eq (by omega)] at h
    cases h
    exact ⟨_, sign, d :: ds, n, hsign, hn, by rw [← hdigits, hcut, ← ht], rfl⟩

theorem written_of_readScale (h : readScale whole fraction t = (s, rest)) (hs : s.IsWhole) :
    ∃ exponent scale, ScaleText exponent scale ∧ t = scale ++ rest ∧
      s = .number (Decimal.ofDigits whole fraction exponent).fitsDouble := by
  unfold readScale at h
  split at h
  · obtain ⟨negative, sign, digits, n, hsign, hn, rfl, hnumber⟩ := written_of_readExponent h hs
    refine ⟨_, _, .exponent (.inl rfl) hsign hn, ?_, hnumber⟩
    rw [List.cons_append, List.append_assoc]
  · obtain ⟨negative, sign, digits, n, hsign, hn, rfl, hnumber⟩ := written_of_readExponent h hs
    refine ⟨_, _, .exponent (.inr rfl) hsign hn, ?_, hnumber⟩
    rw [List.cons_append, List.append_assoc]
  · cases h
    exact ⟨0, [], .none, rfl, rfl⟩

theorem written_of_readFraction (h : readFraction whole t = (s, rest)) (hs : s.IsWhole) :
    ∃ fraction point exponent scale, FractionText fraction point ∧ ScaleText exponent scale ∧
      t = point ++ (scale ++ rest) ∧
      s = .number (Decimal.ofDigits whole fraction exponent).fitsDouble := by
  unfold readFraction at h
  split at h
  · next t =>
    have hcut := List.takeWhile_append_dropWhile (p := Char.isDigit) (l := t)
    cases hdigits : t.takeWhile Char.isDigit with
    | nil =>
      rw [hdigits] at h
      cases h
      cases hs
    | cons d ds =>
      rw [hdigits] at h
      obtain ⟨exponent, scale, hscale, hrest, hnumber⟩ := written_of_readScale h hs
      refine ⟨d :: ds, _, exponent, scale, .point (List.cons_ne_nil d ds) ?_, hscale, ?_, hnumber⟩
      · exact hdigits ▸ List.all_takeWhile
      · rw [List.cons_append, ← hrest, ← hdigits, hcut]
  · obtain ⟨exponent, scale, hscale, hrest, hnumber⟩ := written_of_readScale h hs
    exact ⟨[], [], exponent, scale, .none, hscale, hrest, hnumber⟩

theorem written_of_readNumber {first : Char} (hfirst : first.isDigit = true)
    (h : readNumber first t = (s, rest)) (hs : s.IsWhole) :
    ∃ d w, NumberText d w ∧ NumberText d ('-' :: w) ∧ first :: t = w ++ rest ∧
      s = .number d.fitsDouble := by
  unfold readNumber at h
  split at h
  · next hzero =>
    subst hzero
    split at h
    · cases h
      cases hs
    · obtain ⟨fraction, point, exponent, scale, hpoint, hscale, rfl, hnumber⟩ :=
        written_of_readFraction h hs
      refine ⟨_, _, .intro (.inl rfl) .zero hpoint hscale, .intro (.inr rfl) .zero hpoint hscale, ?_,
        hnumber⟩
      simp
  · next hzero =>
    have hcut := List.takeWhile_append_dropWhile (p := Char.isDigit) (l := t)
    obtain ⟨fraction, point, exponent, scale, hpoint, hscale, hrest, hnumber⟩ :=
      written_of_readFraction h hs
    have hwhole := WholeText.digits hfirst hzero (List.all_takeWhile (p := Char.isDigit) (l := t))
    refine ⟨_, _, .intro (.inl rfl) hwhole hpoint hscale, .intro (.inr rfl) hwhole hpoint hscale, ?_,
      hnumber⟩
    rw [List.nil_append, List.append_assoc, List.append_assoc, ← hrest, List.cons_append, hcut]

theorem written_of_readWord {expected : Text} {found : Scalar}
    (h : readWord expected found t = (s, rest)) (hs : s.IsWhole) : s = found ∧ t = expected ++ rest := by
  unfold readWord at h
  split at h
  · next hopening =>
    cases h
    exact ⟨rfl, Text.dropOpening?_eq_some.1 hopening⟩
  · cases h
    cases hs

theorem written_of_readNegative (h : readNegative t = (s, rest)) (hs : s.IsWhole) :
    ∃ d w, NumberText d ('-' :: w) ∧ t = w ++ rest ∧ s = .number d.fitsDouble := by
  unfold readNegative at h
  split at h
  · split at h
    · next hfirst =>
      obtain ⟨d, w, -, hw, ht, hnumber⟩ := written_of_readNumber hfirst h hs
      exact ⟨d, w, hw, ht, hnumber⟩
    · cases h
      cases hs
  · cases h
    cases hs

theorem written_of_readScalar {c : Char} (h : readScalar c t = (s, rest)) (hs : s.IsWhole) :
    ∃ w, c :: t = w ++ rest ∧ Written (.scalar s) w := by
  unfold readScalar at h
  split_ifs at h with hquote hn ht hf hminus hdigit
  · cases hscan : Quoted.scan t with
    | mk q behind =>
      rw [hscan] at h
      cases h
      obtain ⟨parts, fault⟩ := q
      obtain rfl : fault = none := hs
      obtain ⟨written, rfl, hw⟩ := Quoted.written_of_scan hscan
      exact ⟨_, by simp [hquote], .text hw⟩
  · obtain ⟨rfl, rfl⟩ := written_of_readWord h hs
    exact ⟨_, by rw [hn]; rfl, .null⟩
  · obtain ⟨rfl, rfl⟩ := written_of_readWord h hs
    exact ⟨_, by rw [ht]; rfl, .yes⟩
  · obtain ⟨rfl, rfl⟩ := written_of_readWord h hs
    exact ⟨_, by rw [hf]; rfl, .no⟩
  · obtain ⟨d, w, hw, rfl, rfl⟩ := written_of_readNegative h hs
    exact ⟨_, by rw [hminus]; rfl, .number hw⟩
  · obtain ⟨d, w, hw, -, ht, rfl⟩ := written_of_readNumber hdigit h hs
    exact ⟨w, ht, .number hw⟩
  · cases h
    cases hs

def IsWhole : Token → Prop
  | .scalar s => s.IsWhole
  | _ => True

theorem written_of_read {token : Token} {c : Char} (h : Token.read c t = (token, rest))
    (hw : token.IsWhole) : ∃ w, c :: t = w ++ rest ∧ Written token w := by
  cases hp : punctuation? c with
  | none =>
    rw [read_of_punctuation? hp] at h
    cases h
    exact written_of_readScalar rfl hw
  | some found =>
    rw [Token.read, hp] at h
    cases h
    refine ⟨[c], rfl, ?_⟩
    unfold punctuation? at hp
    split at hp <;> cases hp <;> constructor

end Token

inductive Spaced : List Token → Text → Prop
  | nil {space : Text} : space.all Token.isSpace = true → Spaced [] space
  | cons {space w rest : Text} {token : Token} {ts : List Token} : space.all Token.isSpace = true →
    Token.Written token w → Spaced ts rest → Spaced (token :: ts) (space ++ (w ++ rest))

def Apart : List Token → Prop
  | [] => True
  | token :: ts => (token.isScalar = true → ∀ next ∈ ts.head?, next.isScalar = false) ∧ Apart ts

theorem tokens_append_space {space : Text} (h : space.all Token.isSpace = true) (t : Text) :
    tokens (space ++ t) = tokens t := by
  induction space with
  | nil => rfl
  | cons c space ih =>
    rw [List.all_cons, Bool.and_eq_true] at h
    rw [List.cons_append, tokens, if_pos h.1, ih h.2]

theorem ends_space {c : Char} (h : Token.isSpace c = true) (t : Text) : Ends (c :: t) := by
  rintro _ ⟨⟩
  simp only [Token.isSpace, Bool.or_eq_true, beq_iff_eq] at h
  rcases h with ((rfl | rfl) | rfl) | rfl <;> decide

theorem ends_written {token : Token} {w : Text} (h : Token.Written token w)
    (hs : token.isScalar = false) (t : Text) : Ends (w ++ t) := by
  cases h with
  | null | yes | no | number | text => cases hs
  | beginArray | endArray | beginObject | endObject | comma | colon =>
    rintro _ ⟨⟩
    decide

theorem ends_spaced {ts : List Token} {t : Text} (h : Spaced ts t)
    (hs : ∀ token ∈ ts.head?, token.isScalar = false) : Ends t := by
  cases h with
  | nil hspace =>
    cases t with
    | nil => rintro _ ⟨⟩
    | cons c space =>
      rw [List.all_cons, Bool.and_eq_true] at hspace
      exact ends_space hspace.1 space
  | @cons space w rest token ts hspace hw hrest =>
    cases space with
    | nil => exact ends_written hw (hs token rfl) rest
    | cons c space =>
      rw [List.all_cons, Bool.and_eq_true] at hspace
      exact ends_space hspace.1 _

theorem tokens_of_spaced {ts : List Token} {t : Text} (h : Spaced ts t) (ha : Apart ts) :
    tokens t = ts := by
  induction h with
  | nil hspace =>
    have hnone := tokens_append_space hspace []
    rwa [List.append_nil, tokens] at hnone
  | @cons space w rest token ts hspace hw hrest ih =>
    obtain ⟨c, t, rfl, hc, hread⟩ :=
      Token.read_written hw fun hscalar => ends_spaced hrest (ha.1 hscalar)
    rw [tokens_append_space hspace, List.cons_append, tokens, if_neg (hc ▸ Bool.false_ne_true), hread,
      ih ha.2]

theorem Spaced.space {ts : List Token} {t : Text} (h : Spaced ts t) {c : Char}
    (hc : Token.isSpace c = true) : Spaced ts (c :: t) := by
  cases h with
  | nil hspace => exact .nil (by rw [List.all_cons, hc, hspace]; rfl)
  | @cons space w rest token ts hspace hw hrest =>
    have hmore : (c :: space).all Token.isSpace = true := by rw [List.all_cons, hc, hspace]; rfl
    exact .cons hmore hw hrest

theorem Spaced.gap {ts : List Token} {space t : Text} (hspace : space.all Token.isSpace = true)
    (h : Spaced ts t) : Spaced ts (space ++ t) := by
  induction space with
  | nil => exact h
  | cons c space ih =>
    rw [List.all_cons, Bool.and_eq_true] at hspace
    exact (ih hspace.2).space hspace.1

theorem Spaced.append {ts us : List Token} {t u : Text} (h : Spaced ts t) (h' : Spaced us u) :
    Spaced (ts ++ us) (t ++ u) := by
  induction h with
  | nil hspace => exact h'.gap hspace
  | cons hspace hw _ ih =>
    rw [List.cons_append, List.append_assoc, List.append_assoc]
    exact .cons hspace hw ih

theorem spaced_word {token : Token} {w : Text} (h : Token.Written token w) : Spaced [token] w := by
  have hspace : ([] : Text).all Token.isSpace = true := rfl
  have hword := Spaced.cons hspace h (.nil hspace)
  rwa [List.append_nil] at hword

theorem spaced_quote (t : Text) : Spaced [.scalar (.text (.ofText t))] (quote t) :=
  spaced_word (.text (Quoted.written_chars t))

theorem spaced_tokens {t : Text} (h : ∀ token ∈ tokens t, token.IsWhole) : Spaced (tokens t) t := by
  fun_induction tokens t with
  | case1 => exact .nil rfl
  | case2 c t hc ih => exact (ih h).space hc
  | case3 c t hc ih =>
    rw [List.forall_mem_cons] at h
    obtain ⟨w, hw, hwritten⟩ := Token.written_of_read rfl h.1
    have hspace : ([] : Text).all Token.isSpace = true := rfl
    rw [hw]
    exact .cons hspace hwritten (ih h.2)

end Docmark.Json
