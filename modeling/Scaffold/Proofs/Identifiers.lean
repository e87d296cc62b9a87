import Scaffold.Proofs.Java.Lexing
import Scaffold.Proofs.Kotlin.Words
import Scaffold.Proofs.Mentions
import Scaffold.Artifact.Kind

/-!
# Identifiers of Java

The language takes the characters of an identifier by their general category.
The reader takes them by the identifier properties of Unicode, as its grammar
does, and these admit a few characters more. Apart from those, every name that
is not between backticks gives identifiers.
-/

namespace Scaffold.Text

-- ---------------------------------------------------------------------------
-- Ranges of code points
-- ---------------------------------------------------------------------------

variable {inner outer : List (Nat × Nat)} {c : Char}

theorem inRanges_iff {ranges : List (Nat × Nat)} :
    inRanges ranges c = true ↔ ∃ r ∈ ranges, r.1 ≤ c.toNat ∧ c.toNat ≤ r.2 := by
  simp [inRanges]

theorem inRanges_cons {r : Nat × Nat} {ranges : List (Nat × Nat)} :
    inRanges (r :: ranges) c = true ↔
      r.1 ≤ c.toNat ∧ c.toNat ≤ r.2 ∨ inRanges ranges c = true := by
  simp [inRanges]

theorem inRanges_append : inRanges (inner ++ outer) c = (inRanges inner c || inRanges outer c) :=
  List.any_append

/-- What the ranges hold beyond those of a table, both in ascending order. Each step drops a range
of one of them or cuts one off. -/
def minus : Nat → List (Nat × Nat) → List (Nat × Nat) → List (Nat × Nat)
  | _ + 1, [], _ => []
  | steps + 1, r :: ranges, s :: table =>
    if s.2 < r.1 then minus steps (r :: ranges) table
    else if r.1 < s.1 then
      if r.2 < s.1 then r :: minus steps ranges (s :: table)
      else (r.1, s.1 - 1) :: minus steps ((s.1, r.2) :: ranges) (s :: table)
    else if s.2 < r.2 then minus steps ((s.2 + 1, r.2) :: ranges) table
    else minus steps ranges (s :: table)
  | _, ranges, _ => ranges

theorem inRanges_minus {ranges table : List (Nat × Nat)} (steps : Nat)
    (h : inRanges ranges c = true) :
    inRanges table c = true ∨ inRanges (minus steps ranges table) c = true := by
  fun_induction minus steps ranges table with
  | case1 | case7 => exact .inr h
  | case2 _ r ranges s table hbefore ih =>
    exact (ih h).imp_left fun h => inRanges_cons.mpr (.inr h)
  | case3 _ r ranges s table _ _ _ ih =>
    rcases inRanges_cons.mp h with hr | h
    · exact .inr (inRanges_cons.mpr (.inl hr))
    · exact (ih h).imp_right fun h => inRanges_cons.mpr (.inr h)
  -- The first range is cut where that of the table starts or ends.
  | case4 | case5 | case6 => grind [inRanges_cons]

/-- What the ranges hold beyond those of several tables. -/
def minusAll (ranges : List (Nat × Nat)) (tables : List (List (Nat × Nat))) : List (Nat × Nat) :=
  tables.foldl (fun rest table => minus (2 * (rest.length + table.length)) rest table) ranges

theorem exists_table {ranges : List (Nat × Nat)} {tables : List (List (Nat × Nat))}
    (h : minusAll ranges tables = []) (hc : inRanges ranges c = true) :
    ∃ table ∈ tables, inRanges table c = true := by
  induction tables generalizing ranges with
  | nil =>
    rw [minusAll, List.foldl_nil] at h
    rw [h] at hc
    cases hc
  | cons table tables ih =>
    rcases inRanges_minus (2 * (ranges.length + table.length)) hc with hc | hc
    · exact ⟨table, List.mem_cons_self, hc⟩
    · obtain ⟨other, hmem, hc⟩ := ih h hc
      exact ⟨other, List.mem_cons_of_mem table hmem, hc⟩

/-- No two ranges meet. -/
def apart (inner outer : List (Nat × Nat)) : Bool :=
  inner.all fun r => outer.all fun s => r.2 < s.1 || s.2 < r.1

theorem inRanges_of_apart (h : apart inner outer = true) (hc : inRanges inner c = true) :
    inRanges outer c = false := by
  rw [Bool.eq_false_iff]
  intro hs
  obtain ⟨r, hr, hrlow, hrhigh⟩ := inRanges_iff.mp hc
  obtain ⟨s, hs, hslow, hshigh⟩ := inRanges_iff.mp hs
  have hrs := List.all_eq_true.mp (List.all_eq_true.mp h r hr) s hs
  simp only [Bool.or_eq_true, decide_eq_true_eq] at hrs
  omega

end Scaffold.Text

namespace Scaffold.Source

open Text (inRanges)

namespace Java

-- ---------------------------------------------------------------------------
-- The language
-- ---------------------------------------------------------------------------

/-- Numbers that are letters (general category Nl). -/
def letterNumberRanges : List (Nat × Nat) :=
  [(0x16EE, 0x16F0), (0x2160, 0x2182), (0x2185, 0x2188), (0x3007, 0x3007), (0x3021, 0x3029),
   (0x3038, 0x303A), (0xA6E6, 0xA6EF), (0x10140, 0x10174), (0x10341, 0x10341), (0x1034A, 0x1034A),
   (0x103D1, 0x103D5), (0x12400, 0x1246E)]

/-- Signs of currencies (general category Sc). -/
def currencyRanges : List (Nat × Nat) :=
  [(0x24, 0x24), (0xA2, 0xA5), (0x58F, 0x58F), (0x60B, 0x60B), (0x7FE, 0x7FF), (0x9F2, 0x9F3),
   (0x9FB, 0x9FB), (0xAF1, 0xAF1), (0xBF9, 0xBF9), (0xE3F, 0xE3F), (0x17DB, 0x17DB),
   (0x20A0, 0x20C0), (0xA838, 0xA838), (0xFDFC, 0xFDFC), (0xFE69, 0xFE69), (0xFF04, 0xFF04),
   (0xFFE0, 0xFFE1), (0xFFE5, 0xFFE6), (0x11FDD, 0x11FE0), (0x1E2FF, 0x1E2FF), (0x1ECB0, 0x1ECB0)]

/-- Connecting punctuation (general category Pc). -/
def connectorRanges : List (Nat × Nat) :=
  [(0x5F, 0x5F), (0x203F, 0x2040), (0x2054, 0x2054), (0xFE33, 0xFE34), (0xFE4D, 0xFE4F),
   (0xFF3F, 0xFF3F)]

/-- Control characters that are no blanks, and characters of formats (general category Cf). -/
def ignorableRanges : List (Nat × Nat) :=
  [(0x0, 0x8), (0xE, 0x1B), (0x7F, 0x9F), (0xAD, 0xAD), (0x600, 0x605), (0x61C, 0x61C),
   (0x6DD, 0x6DD), (0x70F, 0x70F), (0x890, 0x891), (0x8E2, 0x8E2), (0x180E, 0x180E),
   (0x200B, 0x200F), (0x202A, 0x202E), (0x2060, 0x2064), (0x2066, 0x206F), (0xFEFF, 0xFEFF),
   (0xFFF9, 0xFFFB), (0x110BD, 0x110BD), (0x110CD, 0x110CD), (0x13430, 0x1343F),
   (0x1BCA0, 0x1BCA3), (0x1D173, 0x1D17A), (0xE0001, 0xE0001), (0xE0020, 0xE007F)]

/-- Marks (general categories Mn and Mc). -/
def markRanges : List (Nat × Nat) :=
  [(0x300, 0x36F), (0x483, 0x487), (0x591, 0x5BD), (0x5BF, 0x5BF), (0x5C1, 0x5C2), (0x5C4, 0x5C5),
   (0x5C7, 0x5C7), (0x610, 0x61A), (0x64B, 0x65F), (0x670, 0x670), (0x6D6, 0x6DC), (0x6DF, 0x6E4),
   (0x6E7, 0x6E8), (0x6EA, 0x6ED), (0x711, 0x711), (0x730, 0x74A), (0x7A6, 0x7B0), (0x7EB, 0x7F3),
   (0x7FD, 0x7FD), (0x816, 0x819), (0x81B, 0x823), (0x825, 0x827), (0x829, 0x82D), (0x859, 0x85B),
   (0x898, 0x89F), (0x8CA, 0x8E1), (0x8E3, 0x903), (0x93A, 0x93C), (0x93E, 0x94F), (0x951, 0x957),
   (0x962, 0x963), (0x981, 0x983), (0x9BC, 0x9BC), (0x9BE, 0x9C4), (0x9C7, 0x9C8), (0x9CB, 0x9CD),
   (0x9D7, 0x9D7), (0x9E2, 0x9E3), (0x9FE, 0x9FE), (0xA01, 0xA03), (0xA3C, 0xA3C), (0xA3E, 0xA42),
   (0xA47, 0xA48), (0xA4B, 0xA4D), (0xA51, 0xA51), (0xA70, 0xA71), (0xA75, 0xA75), (0xA81, 0xA83),
   (0xABC, 0xABC), (0xABE, 0xAC5), (0xAC7, 0xAC9), (0xACB, 0xACD), (0xAE2, 0xAE3), (0xAFA, 0xAFF),
   (0xB01, 0xB03), (0xB3C, 0xB3C), (0xB3E, 0xB44), (0xB47, 0xB48), (0xB4B, 0xB4D), (0xB55, 0xB57),
   (0xB62, 0xB63), (0xB82, 0xB82), (0xBBE, 0xBC2), (0xBC6, 0xBC8), (0xBCA, 0xBCD), (0xBD7, 0xBD7),
   (0xC00, 0xC04), (0xC3C, 0xC3C), (0xC3E, 0xC44), (0xC46, 0xC48), (0xC4A, 0xC4D), (0xC55, 0xC56),
   (0xC62, 0xC63), (0xC81, 0xC83), (0xCBC, 0xCBC), (0xCBE, 0xCC4), (0xCC6, 0xCC8), (0xCCA, 0xCCD),
   (0xCD5, 0xCD6), (0xCE2, 0xCE3), (0xD00, 0xD03), (0xD3B, 0xD3C), (0xD3E, 0xD44), (0xD46, 0xD48),
   (0xD4A, 0xD4D), (0xD57, 0xD57), (0xD62, 0xD63), (0xD81, 0xD83), (0xDCA, 0xDCA), (0xDCF, 0xDD4),
   (0xDD6, 0xDD6), (0xDD8, 0xDDF), (0xDF2, 0xDF3), (0xE31, 0xE31), (0xE34, 0xE3A), (0xE47, 0xE4E),
   (0xEB1, 0xEB1), (0xEB4, 0xEBC), (0xEC8, 0xECD), (0xF18, 0xF19), (0xF35, 0xF35), (0xF37, 0xF37),
   (0xF39, 0xF39), (0xF3E, 0xF3F), (0xF71, 0xF84), (0xF86, 0xF87), (0xF8D, 0xF97), (0xF99, 0xFBC),
   (0xFC6, 0xFC6), (0x102B, 0x103E), (0x1056, 0x1059), (0x105E, 0x1060), (0x1062, 0x1064),
   (0x1067, 0x106D), (0x1071, 0x1074), (0x1082, 0x108D), (0x108F, 0x108F), (0x109A, 0x109D),
   (0x135D, 0x135F), (0x1712, 0x1715), (0x1732, 0x1734), (0x1752, 0x1753), (0x1772, 0x1773),
   (0x17B4, 0x17D3), (0x17DD, 0x17DD), (0x180B, 0x180D), (0x180F, 0x180F), (0x1885, 0x1886),
   (0x18A9, 0x18A9), (0x1920, 0x192B), (0x1930, 0x193B), (0x1A17, 0x1A1B), (0x1A55, 0x1A5E),
   (0x1A60, 0x1A7C), (0x1A7F, 0x1A7F), (0x1AB0, 0x1ABD), (0x1ABF, 0x1ACE), (0x1B00, 0x1B04),
   (0x1B34, 0x1B44), (0x1B6B, 0x1B73), (0x1B80, 0x1B82), (0x1BA1, 0x1BAD), (0x1BE6, 0x1BF3),
   (0x1C24, 0x1C37), (0x1CD0, 0x1CD2), (0x1CD4, 0x1CE8), (0x1CED, 0x1CED), (0x1CF4, 0x1CF4),
   (0x1CF7, 0x1CF9), (0x1DC0, 0x1DFF), (0x20D0, 0x20DC), (0x20E1, 0x20E1), (0x20E5, 0x20F0),
   (0x2CEF, 0x2CF1), (0x2D7F, 0x2D7F), (0x2DE0, 0x2DFF), (0x302A, 0x302F), (0x3099, 0x309A),
   (0xA66F, 0xA66F), (0xA674, 0xA67D), (0xA69E, 0xA69F), (0xA6F0, 0xA6F1), (0xA802, 0xA802),
   (0xA806, 0xA806), (0xA80B, 0xA80B), (0xA823, 0xA827), (0xA82C, 0xA82C), (0xA880, 0xA881),
   (0xA8B4, 0xA8C5), (0xA8E0, 0xA8F1), (0xA8FF, 0xA8FF), (0xA926, 0xA92D), (0xA947, 0xA953),
   (0xA980, 0xA983), (0xA9B3, 0xA9C0), (0xA9E5, 0xA9E5), (0xAA29, 0xAA36), (0xAA43, 0xAA43),
   (0xAA4C, 0xAA4D), (0xAA7B, 0xAA7D), (0xAAB0, 0xAAB0), (0xAAB2, 0xAAB4), (0xAAB7, 0xAAB8),
   (0xAABE, 0xAABF), (0xAAC1, 0xAAC1), (0xAAEB, 0xAAEF), (0xAAF5, 0xAAF6), (0xABE3, 0xABEA),
   (0xABEC, 0xABED), (0xFB1E, 0xFB1E), (0xFE00, 0xFE0F), (0xFE20, 0xFE2F), (0x101FD, 0x101FD),
   (0x102E0, 0x102E0), (0x10376, 0x1037A), (0x10A01, 0x10A03), (0x10A05, 0x10A06),
   (0x10A0C, 0x10A0F), (0x10A38, 0x10A3A), (0x10A3F, 0x10A3F), (0x10AE5, 0x10AE6),
   (0x10D24, 0x10D27), (0x10EAB, 0x10EAC), (0x10F46, 0x10F50), (0x10F82, 0x10F85),
   (0x11000, 0x11002), (0x11038, 0x11046), (0x11070, 0x11070), (0x11073, 0x11074),
   (0x1107F, 0x11082), (0x110B0, 0x110BA), (0x110C2, 0x110C2), (0x11100, 0x11102),
   (0x11127, 0x11134), (0x11145, 0x11146), (0x11173, 0x11173), (0x11180, 0x11182),
   (0x111B3, 0x111C0), (0x111C9, 0x111CC), (0x111CE, 0x111CF), (0x1122C, 0x11237),
   (0x1123E, 0x1123E), (0x112DF, 0x112EA), (0x11300, 0x11303), (0x1133B, 0x1133C),
   (0x1133E, 0x11344), (0x11347, 0x11348), (0x1134B, 0x1134D), (0x11357, 0x11357),
   (0x11362, 0x11363), (0x11366, 0x1136C), (0x11370, 0x11374), (0x11435, 0x11446),
   (0x1145E, 0x1145E), (0x114B0, 0x114C3), (0x115AF, 0x115B5), (0x115B8, 0x115C0),
   (0x115DC, 0x115DD), (0x11630, 0x11640), (0x116AB, 0x116B7), (0x1171D, 0x1172B),
   (0x1182C, 0x1183A), (0x11930, 0x11935), (0x11937, 0x11938), (0x1193B, 0x1193E),
   (0x11940, 0x11940), (0x11942, 0x11943), (0x119D1, 0x119D7), (0x119DA, 0x119E0),
   (0x119E4, 0x119E4), (0x11A01, 0x11A0A), (0x11A33, 0x11A39), (0x11A3B, 0x11A3E),
   (0x11A47, 0x11A47), (0x11A51, 0x11A5B), (0x11A8A, 0x11A99), (0x11C2F, 0x11C36),
   (0x11C38, 0x11C3F), (0x11C92, 0x11CA7), (0x11CA9, 0x11CB6), (0x11D31, 0x11D36),
   (0x11D3A, 0x11D3A), (0x11D3C, 0x11D3D), (0x11D3F, 0x11D45), (0x11D47, 0x11D47),
   (0x11D8A, 0x11D8E), (0x11D90, 0x11D91), (0x11D93, 0x11D97), (0x11EF3, 0x11EF6),
   (0x16AF0, 0x16AF4), (0x16B30, 0x16B36), (0x16F4F, 0x16F4F), (0x16F51, 0x16F87),
   (0x16F8F, 0x16F92), (0x16FE4, 0x16FE4), (0x16FF0, 0x16FF1), (0x1BC9D, 0x1BC9E),
   (0x1CF00, 0x1CF2D), (0x1CF30, 0x1CF46), (0x1D165, 0x1D169), (0x1D16D, 0x1D172),
   (0x1D17B, 0x1D182), (0x1D185, 0x1D18B), (0x1D1AA, 0x1D1AD), (0x1D242, 0x1D244),
   (0x1DA00, 0x1DA36), (0x1DA3B, 0x1DA6C), (0x1DA75, 0x1DA75), (0x1DA84, 0x1DA84),
   (0x1DA9B, 0x1DA9F), (0x1DAA1, 0x1DAAF), (0x1E000, 0x1E006), (0x1E008, 0x1E018),
   (0x1E01B, 0x1E021), (0x1E023, 0x1E024), (0x1E026, 0x1E02A), (0x1E130, 0x1E136),
   (0x1E2AE, 0x1E2AE), (0x1E2EC, 0x1E2EF), (0x1E8D0, 0x1E8D6), (0x1E944, 0x1E94A),
   (0xE0100, 0xE01EF)]

/-- The language lets the character start an identifier. -/
def startsLegally (c : Char) : Bool :=
  Text.isLetter c || inRanges letterNumberRanges c || inRanges currencyRanges c ||
    inRanges connectorRanges c

/-- The language lets the character go on with an identifier. -/
def continuesLegally (c : Char) : Bool :=
  startsLegally c || Text.isDigit c || inRanges markRanges c || inRanges ignorableRanges c

/-- An identifier of the language. -/
def isLegal (t : String) : Bool :=
  match t.toList with
  | [] => false
  | c :: cs => startsLegally c && cs.all continuesLegally && t ∉ "_" :: reserved

-- ---------------------------------------------------------------------------
-- The reader
-- ---------------------------------------------------------------------------

/-- Marks that Unicode lets start an identifier. -/
def startingMarks : List (Nat × Nat) := [(0x1885, 0x1886)]

/-- Characters that Unicode lets into identifiers by hand: they are no letters, numbers that are
letters, digits, marks or connectors. -/
def exceptional : List (Nat × Nat) :=
  [(0xB7, 0xB7), (0x387, 0x387), (0x1369, 0x1371), (0x19DA, 0x19DA), (0x2118, 0x2118),
   (0x212E, 0x212E)]

variable {c : Char} {t : String}

/-- What starts an identifier of the language, above ASCII. -/
def legalStarts : List (Nat × Nat) :=
  Text.letterRanges ++ letterNumberRanges ++ currencyRanges ++ connectorRanges

/-- What goes on with an identifier of the language, above ASCII. -/
def legalParts : List (Nat × Nat) :=
  legalStarts ++ Text.digitRanges ++ markRanges ++ ignorableRanges

theorem startsLegally_eq (h : ¬c.toNat < 128) : startsLegally c = inRanges legalStarts c := by
  simp [startsLegally, Text.isLetter, legalStarts, Text.inRanges_append, h, Bool.or_assoc]

theorem continuesLegally_eq (h : ¬c.toNat < 128) :
    continuesLegally c = inRanges legalParts c := by
  simp [continuesLegally, startsLegally_eq h, Text.isDigit, legalParts, Text.inRanges_append, h,
    Bool.or_assoc]

theorem not_ascii_of_apart {ranges : List (Nat × Nat)} (h : Text.apart ranges [(0, 127)] = true)
    (hc : inRanges ranges c = true) : ¬c.toNat < 128 := by
  intro hascii
  have hsome : inRanges [(0, 127)] c = true :=
    Text.inRanges_cons.mpr (.inl ⟨Nat.zero_le _, Nat.le_of_lt_succ hascii⟩)
  rw [Text.inRanges_of_apart h hc] at hsome
  cases hsome

theorem startsLegally_exceptional (h : inRanges (startingMarks ++ exceptional) c = true) :
    startsLegally c = false := by
  rw [startsLegally_eq (not_ascii_of_apart (by decide) h)]
  exact Text.inRanges_of_apart (by decide +kernel) h

theorem continuesLegally_exceptional (h : inRanges exceptional c = true) :
    continuesLegally c = false := by
  rw [continuesLegally_eq (not_ascii_of_apart (by decide) h)]
  exact Text.inRanges_of_apart (by decide +kernel) h

theorem starts_cases (h : Text.isIdentifierStart c = true) :
    startsLegally c = true ∨ inRanges (startingMarks ++ exceptional) c = true := by
  unfold Text.isIdentifierStart at h
  split at h
  · next hascii => exact .inl (by simp [startsLegally, Text.isLetter, hascii, h])
  · next hascii =>
    rw [startsLegally_eq hascii, ← Bool.or_eq_true, ← Text.inRanges_append]
    rw [Bool.or_eq_true, Bool.and_eq_true] at h
    rcases h with ⟨h, -⟩ | h
    · simp [legalStarts, Text.inRanges_append, h]
    · have hnone : Text.minusAll Text.startRanges [letterNumberRanges, startingMarks, exceptional] =
          [] := by decide +kernel
      have hcases := Text.exists_table hnone h
      simp only [List.mem_cons, List.not_mem_nil, or_false, exists_eq_or_imp, exists_eq_left]
        at hcases
      rcases hcases with h | h | h <;> simp [legalStarts, Text.inRanges_append, h]

theorem continues_cases (h : Text.isIdentifierContinue c = true) :
    continuesLegally c = true ∨ inRanges exceptional c = true := by
  unfold Text.isIdentifierContinue at h
  split at h
  · next hascii =>
    simp only [Char.isAlphanum, Bool.or_eq_true, beq_iff_eq] at h
    rcases h with (h | h) | rfl
    · simp [continuesLegally, startsLegally, Text.isLetter, hascii, h]
    · simp [continuesLegally, Text.isDigit, hascii, h]
    · exact .inl (by decide)
  · next hascii =>
    rw [Bool.or_eq_true] at h
    rcases h with h | h
    · rcases starts_cases h with h | h
      · exact .inl (by simp [continuesLegally, h])
      · rw [Text.inRanges_append, Bool.or_eq_true] at h
        refine h.imp_left fun h => ?_
        have hnone : Text.minusAll startingMarks [markRanges] = [] := by decide +kernel
        have hmark := Text.exists_table hnone h
        simp only [List.mem_singleton, exists_eq_left] at hmark
        simp [continuesLegally, hmark]
    · rw [continuesLegally_eq hascii]
      have hnone : Text.minusAll Text.continueRanges [markRanges, Text.digitRanges,
          connectorRanges, Text.letterRanges, exceptional] = [] := by decide +kernel
      have hcases := Text.exists_table hnone h
      simp only [List.mem_cons, List.not_mem_nil, or_false, exists_eq_or_imp, exists_eq_left]
        at hcases
      rcases hcases with h | h | h | h | h <;>
        simp [legalParts, legalStarts, Text.inRanges_append, h]

/-- A character that starts a word and is no digit. -/
theorem startsLegally_iff (h : isWordStart c = true) (hd : c.isDigit = false) :
    startsLegally c = true ↔ ¬inRanges (startingMarks ++ exceptional) c = true := by
  constructor
  · intro hs hm
    rw [startsLegally_exceptional hm] at hs
    cases hs
  · intro hm
    simp only [isWordStart, hd, Bool.or_false, Bool.or_eq_true, decide_eq_true_eq] at h
    rcases h with (h | rfl) | rfl
    · exact (starts_cases h).resolve_right hm
    · decide
    · decide

/-- A character that goes on with a word. -/
theorem continuesLegally_iff (h : isWordPart c = true) :
    continuesLegally c = true ↔ ¬inRanges exceptional c = true := by
  constructor
  · intro hs hm
    rw [continuesLegally_exceptional hm] at hs
    cases hs
  · intro hm
    simp only [isWordPart, Bool.or_eq_true, decide_eq_true_eq] at h
    rcases h with (h | rfl) | rfl
    · exact (continues_cases h).resolve_right hm
    · decide +kernel
    · decide +kernel

-- ---------------------------------------------------------------------------
-- Type names
-- ---------------------------------------------------------------------------

/-- An ending makes no reserved word, and nothing illegal. -/
theorem isLegal_typeName_of_cons {cs : List Char} (k : Kind) (ht : t.toList = c :: cs) :
    isLegal (k.typeName t) = true ↔
      startsLegally c = true ∧ ∀ d ∈ cs, continuesLegally d = true := by
  have hparts : k.ending.toList.all continuesLegally = true := by cases k <;> decide +kernel
  have hreserved : k.typeName t ∉ "_" :: reserved := by
    have hends : ∀ w ∈ "_" :: reserved, ¬k.ending.toList <:+ w.toList := by cases k <;> decide
    exact fun hmem => hends _ hmem (by simp [Kind.typeName])
  have hlist : (k.typeName t).toList = c :: (cs ++ k.ending.toList) := by simp [Kind.typeName, ht]
  have hall : (cs ++ k.ending.toList).all continuesLegally = cs.all continuesLegally := by
    rw [List.all_append, hparts, Bool.and_true]
  simp [isLegal, hlist, hall, hreserved]

/-- Some character of the name is let in by hand, or a mark starts it. -/
def IsExceptional (t : String) : Prop :=
  (∃ c ∈ t.toList.head?, inRanges startingMarks c = true) ∨
    ∃ c ∈ t.toList, inRanges exceptional c = true

theorem isExceptional_cons {cs : List Char} (ht : t.toList = c :: cs) :
    IsExceptional t ↔ inRanges (startingMarks ++ exceptional) c = true ∨
      ∃ d ∈ cs, inRanges exceptional d = true := by
  simp [IsExceptional, ht, Text.inRanges_append, or_assoc]

end Java

-- ---------------------------------------------------------------------------
-- Names of declarations
-- ---------------------------------------------------------------------------

/-- The names that a declaration can have. Digits are words, but none starts a name. -/
inductive Named : Language → String → Prop
  | java {t} : Java.scanner.isWord t = true → t.toList.head?.map Char.isDigit = some false →
      Named .java t
  | kotlin {t} : Kotlin.scanner.isWord t = true → t.toList.head?.map Char.isDigit = some false →
      Named .kotlin t
  | quoted {t} : Kotlin.IsQuoted t → Named .kotlin t

theorem named_declaration {s : SourceFile} {d : Declaration} (h : s.declaration? = some d) :
    Named s.language d.name := by
  obtain ⟨l, hl, hnames⟩ := SourceFile.exists_names h
  rw [← hnames.text]
  unfold SourceFile.lexemes at hl
  cases hlang : s.language with
  | java =>
    rw [hlang] at hl
    exact .java (Java.isWord_of_mem hl hnames.shape) hnames.start
  | kotlin =>
    rw [hlang] at hl
    rcases Kotlin.words_lexemes _ l hl hnames.shape with hword | hquoted
    · exact .kotlin hword hnames.start
    · exact .quoted hquoted

namespace Named

open Java

variable {language : Language} {t : String}

section
variable {σ P : Type} {m : Scanner σ P}

theorem cons_of_isWord (hw : m.isWord t = true)
    (hd : t.toList.head?.map Char.isDigit = some false) :
    ∃ c cs, t.toList = c :: cs ∧ m.isStart c = true ∧ c.isDigit = false ∧
      ∀ d ∈ cs, m.isPart d = true := by
  obtain ⟨c, cs, ht, hc, hcs⟩ := Scanner.isWord_iff.mp hw
  rw [ht, List.head?_cons, Option.map_some, Option.some.injEq] at hd
  exact ⟨c, cs, ht, hc, hd, hcs⟩

theorem not_quoted_of_isWord (hw : m.isWord t = true) (hm : m.isStart '\x60' = false) :
    ¬Kotlin.IsQuoted t := by
  rintro ⟨_, hquoted, -⟩
  obtain ⟨c, cs, ht, hc, -⟩ := Scanner.isWord_iff.mp hw
  rw [ht, List.cons.injEq] at hquoted
  rw [hquoted.1, hm] at hc
  cases hc

end

/-- What a word of Kotlin is made of, the language takes into identifiers. -/
theorem legal_of_kotlin (hw : Kotlin.scanner.isWord t = true)
    (hd : t.toList.head?.map Char.isDigit = some false) :
    ∃ c cs, t.toList = c :: cs ∧ startsLegally c = true ∧
      ∀ d ∈ cs, continuesLegally d = true := by
  obtain ⟨c, cs, ht, hc, hdigit, hcs⟩ := cons_of_isWord hw hd
  have hletter {e : Char} (h : Text.isListedLetter e = true) : startsLegally e = true := by
    rw [Text.isListedLetter, Bool.and_eq_true] at h
    simp [startsLegally, h.1]
  refine ⟨c, cs, ht, ?_, fun e he => ?_⟩
  · have hstart : Kotlin.isWordStart c = true := (Bool.and_eq_true _ _ ▸ hc).2
    simp only [Kotlin.isWordStart, hdigit, Bool.or_false, Bool.or_eq_true, decide_eq_true_eq]
      at hstart
    rcases hstart with h | rfl
    · exact hletter h
    · decide
  · have hpart : Kotlin.isWordPart e = true := hcs e he
    simp only [Kotlin.isWordPart, Bool.or_eq_true, decide_eq_true_eq] at hpart
    rcases hpart with (h | rfl) | h
    · simp [continuesLegally, hletter h]
    · decide
    · simp [continuesLegally, h]

theorem not_exceptional_of_legal {c : Char} {cs : List Char} (ht : t.toList = c :: cs)
    (hc : startsLegally c = true) (hcs : ∀ d ∈ cs, continuesLegally d = true) :
    ¬IsExceptional t := by
  rw [isExceptional_cons ht]
  rintro (h | ⟨d, hd, h⟩)
  · rw [startsLegally_exceptional h] at hc
    cases hc
  · have := hcs d hd
    rw [continuesLegally_exceptional h] at this
    cases this

/-- A name gives identifiers of the language, or it stands between backticks or is exceptional. -/
theorem isLegal_typeName_iff (h : Named language t) (k : Kind) :
    isLegal (k.typeName t) = true ↔ ¬Kotlin.IsQuoted t ∧ ¬IsExceptional t := by
  cases h with
  | java hw hd =>
    obtain ⟨c, cs, ht, hc, hdigit, hcs⟩ := cons_of_isWord hw hd
    have hstart : isWordStart c = true := (Bool.and_eq_true _ _ ▸ hc).2
    rw [isLegal_typeName_of_cons k ht, startsLegally_iff hstart hdigit, isExceptional_cons ht,
      and_iff_right (not_quoted_of_isWord hw (by decide)), not_or, not_exists]
    simp only [not_and]
    exact and_congr_right fun _ => forall₂_congr fun d hd => continuesLegally_iff (hcs d hd)
  | kotlin hw hd =>
    obtain ⟨c, cs, ht, hc, hcs⟩ := legal_of_kotlin hw hd
    rw [isLegal_typeName_of_cons k ht]
    exact iff_of_true ⟨hc, hcs⟩
      ⟨not_quoted_of_isWord hw (by decide), not_exceptional_of_legal ht hc hcs⟩
  | quoted hq =>
    obtain ⟨cs, ht, -⟩ := id hq
    have htick : startsLegally '\x60' = false := by decide +kernel
    rw [isLegal_typeName_of_cons k ht, htick]
    simp [hq]

/-- Only a name between backticks has a slash. -/
theorem quoted_of_mem_slash (h : Named language t) (hs : '/' ∈ t.toList) : Kotlin.IsQuoted t := by
  have hword {σ P : Type} {m : Scanner σ P} (hw : m.isWord t = true) :
      m.isStart '/' = true ∨ m.isPart '/' = true := by
    obtain ⟨c, cs, ht, hc, hcs⟩ := Scanner.isWord_iff.mp hw
    rcases List.mem_cons.mp (ht ▸ hs) with rfl | hs
    · exact .inl hc
    · exact .inr (hcs _ hs)
  cases h with
  | java hw => exact absurd (hword hw) (by decide)
  | kotlin hw => exact absurd (hword hw) (by decide)
  | quoted hq => exact hq

theorem language_of_quoted (h : Named language t) (hq : Kotlin.IsQuoted t) :
    language = .kotlin := by
  cases h with
  | java hw => exact absurd hq (not_quoted_of_isWord hw (by decide))
  | kotlin | quoted => rfl

/-- Outside backticks, only names of Java are exceptional. -/
theorem language_of_exceptional (h : Named language t) (he : IsExceptional t)
    (hq : ¬Kotlin.IsQuoted t) : language = .java := by
  cases h with
  | java => rfl
  | kotlin hw hd =>
    obtain ⟨c, cs, ht, hc, hcs⟩ := legal_of_kotlin hw hd
    exact absurd he (not_exceptional_of_legal ht hc hcs)
  | quoted hquoted => exact absurd hquoted hq

end Named

end Scaffold.Source
