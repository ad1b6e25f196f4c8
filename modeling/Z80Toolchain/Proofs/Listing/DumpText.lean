import Z80Toolchain.Proofs.Listing.DumpRows
import Z80Toolchain.Proofs.Text.NumeralText

/-!
The text of a dump, read back. A printed line has a bar between the code and the source: in front of it
an address and bytes can stand, behind it the number and the text of a source line. What is printed for
a row reads as the row, so the printed text itself shows every source line and every byte once.
-/
namespace Z80Toolchain

namespace Dump

/-! ### Reading printed lines -/

def readPairs : List Char → List UInt8
  | high :: low :: rest =>
    if high = ' ' then readPairs (low :: rest)
    else UInt8.ofNat (Numeral.value 16 [high, low]) :: readPairs rest
  | _ => []

def readCode : List Char → Option (UInt16 × List UInt8)
  | '[' :: a :: b :: c :: d :: ']' :: ' ' :: rest =>
    some (UInt16.ofNat (Numeral.value 16 [a, b, c, d]), readPairs (rest.takeWhile (· != '|')))
  | _ => none

def readNumbered (text : List Char) : Option (Nat × List Char) :=
  let numbered := text.dropWhile (· == ' ')
  match numbered.dropWhile (Numeral.isDigit 10) with
  | ':' :: ' ' :: rest => some (Numeral.value 10 (numbered.takeWhile (Numeral.isDigit 10)), rest)
  | _ => none

def readSource (printed : List Char) : Option (Nat × List Char) :=
  match printed.dropWhile (· != '|') with
  | '|' :: ' ' :: rest => readNumbered rest
  | _ => none

/-- The number of the source line of a printed line that also has an address, and the bytes there. -/
def readStart (printed : List Char) : Option (Nat × UInt16 × List UInt8) := do
  let (address, bytes) ← readCode printed
  let (number, _) ← readSource printed
  return (number, address, bytes)

/-! ### Printed rows -/

section

variable (painting : Painting)

def SourceLine.shown (line : SourceLine) : List Char :=
  if line.faulty then
    (painting.on [.red]).toList ++ line.text ++ (painting.off [.red]).toList
  else line.text

/-- What stands in front of the bar where no code does. -/
def mark (faulty : Bool) : List Char :=
  (Numeral.padEnd 18
    (if faulty then painting.paint [.red, .bold] (Numeral.padStart 18 "!!") else "")).toList ++ [' ']

namespace Row

def left : Row → List Char
  | silent line => mark painting line.faulty
  | code address bytes _ | more address bytes =>
    '[' :: (Numeral.hexUpper 4 address.toNat).toList ++
      ']' :: ' ' :: ((Numeral.padEnd 11 (hexBytes bytes)).toList ++ [' '])

def right : Row → List Char
  | silent line | code _ _ line => ' ' :: (line.render painting).toList
  | more _ _ => []

def printed (row : Row) : List Char :=
  row.left painting ++ '|' :: row.right painting

theorem to_list_render (row : Row) :
    (row.render painting).toList = row.printed painting ++ ['\n'] := by
  cases row <;> simp [render, printed, left, right, mark, renderBytes]

end Row

theorem to_list_render_line (line : SourceLine) :
    (line.render painting).toList = (Numeral.padStart 4 (Numeral.decimal (line.number + 1))).toList
      ++ ':' :: ' ' :: line.shown painting := by
  rw [SourceLine.render, SourceLine.shown]
  split <;> simp [Painting.paint]

theorem read_numbered_render (line : SourceLine) :
    readNumbered (line.render painting).toList = some (line.number + 1, line.shown painting) := by
  have all := @Numeral.is_digit_to_digits 10 (by decide) (by decide) (line.number + 1)
  have value := @Numeral.value_to_digits 10 (by decide) (by decide) (line.number + 1)
  have text : (line.render painting).toList =
      List.replicate (4 - (Nat.toDigits 10 (line.number + 1)).length) ' ' ++
        (Nat.toDigits 10 (line.number + 1) ++ ':' :: ' ' :: line.shown painting) := by
    simp [to_list_render_line painting, Numeral.padStart, Numeral.decimal, List.leftpad]
  generalize Nat.toDigits 10 (line.number + 1) = digits at all value text
  have trimmed : (line.render painting).toList.dropWhile (· == ' ') =
      digits ++ ':' :: ' ' :: line.shown painting := by
    rw [text, List.dropWhile_append_of_pos (by simp)]
    cases digits with
    | nil => rfl
    | cons c digits =>
      have digit : c ≠ ' ' := by
        rintro rfl
        exact absurd (all ' ' (by simp)) (by decide)
      simp [digit]
  have stop : Numeral.isDigit 10 ':' = false := by decide
  simp only [readNumbered, trimmed]
  rw [List.dropWhile_append_of_pos all, List.takeWhile_append_of_pos all]
  simp [stop, value]

end

theorem read_pairs_blank (rest : List Char) : readPairs (' ' :: rest) = readPairs rest := by
  cases rest with
  | nil => rfl
  | cons c rest => rw [readPairs, if_pos rfl]

theorem read_pairs_blanks (count : Nat) : readPairs (List.replicate count ' ') = [] := by
  induction count with
  | zero => rfl
  | succ count induction => rw [List.replicate_succ, read_pairs_blank, induction]

theorem read_pairs_hex_upper (byte : UInt8) (rest : List Char) :
    readPairs ((Numeral.hexUpper 2 byte.toNat).toList ++ rest) = byte :: readPairs rest := by
  have all := Numeral.is_digit_hex_upper 2 byte.toNat
  have value := Numeral.value_hex_upper 2 byte.toNat
  have short : (Nat.toDigits 16 byte.toNat).length ≤ 2 :=
    (Nat.length_toDigits_le_iff (by decide) (by decide)).mpr byte.toNat_lt
  obtain ⟨high, low, pair⟩ := List.length_eq_two.mp (Numeral.length_hex_upper short)
  rw [pair] at all value ⊢
  have digit : high ≠ ' ' := by
    rintro rfl
    exact absurd (all ' ' (by simp)) (by decide)
  rw [List.cons_append, List.singleton_append, readPairs, if_neg digit, value, UInt8.ofNat_toNat]

theorem to_list_hex_bytes_singleton (byte : UInt8) :
    (hexBytes [byte]).toList = (Numeral.hexUpper 2 byte.toNat).toList := by
  simp [hexBytes]

theorem to_list_hex_bytes_cons (byte next : UInt8) (bytes : List UInt8) :
    (hexBytes (byte :: next :: bytes)).toList =
      (Numeral.hexUpper 2 byte.toNat).toList ++ ' ' :: (hexBytes (next :: bytes)).toList := by
  simp [hexBytes, String.toList_intercalate]

/-- Printed bytes read as themselves, whatever blanks follow. -/
theorem read_pairs_hex_bytes (bytes : List UInt8) (count : Nat) :
    readPairs ((hexBytes bytes).toList ++ List.replicate count ' ') = bytes := by
  induction bytes with
  | nil => exact read_pairs_blanks count
  | cons byte bytes induction =>
    cases bytes with
    | nil => rw [to_list_hex_bytes_singleton, read_pairs_hex_upper, read_pairs_blanks]
    | cons next bytes =>
      rw [to_list_hex_bytes_cons, List.append_assoc, read_pairs_hex_upper, List.cons_append,
        read_pairs_blank, induction]

def IsPlain (c : Char) : Prop :=
  c ≠ '|' ∧ c ≠ '\n'

instance (c : Char) : Decidable (IsPlain c) :=
  inferInstanceAs (Decidable (c ≠ '|' ∧ c ≠ '\n'))

theorem is_plain_hex_upper (width number : Nat) :
    ∀ c ∈ (Numeral.hexUpper width number).toList, IsPlain c := by
  intro c member
  have digit := Numeral.is_digit_hex_upper width number c member
  constructor <;> rintro rfl <;> exact absurd digit (by decide)

theorem is_plain_hex_bytes (bytes : List UInt8) : ∀ c ∈ (hexBytes bytes).toList, IsPlain c := by
  induction bytes with
  | nil => simp [hexBytes]
  | cons byte bytes induction =>
    cases bytes with
    | nil =>
      rw [to_list_hex_bytes_singleton]
      exact is_plain_hex_upper 2 byte.toNat
    | cons next bytes =>
      rw [to_list_hex_bytes_cons]
      exact List.forall_mem_append.mpr ⟨is_plain_hex_upper 2 byte.toNat,
        List.forall_mem_cons.mpr ⟨by decide, induction⟩⟩

theorem to_list_pad_end (width : Nat) (text : String) :
    (Numeral.padEnd width text).toList =
      text.toList ++ List.replicate (width - text.toList.length) ' ' := by
  rw [Numeral.padEnd, String.toList_ofList, List.rightpad]

theorem is_plain_bytes (bytes : List UInt8) :
    ∀ c ∈ (Numeral.padEnd 11 (hexBytes bytes)).toList ++ [' '], IsPlain c := by
  rw [to_list_pad_end, List.forall_mem_append, List.forall_mem_append]
  refine ⟨⟨is_plain_hex_bytes bytes, ?_⟩, by simp [IsPlain]⟩
  intro c member
  rw [List.eq_of_mem_replicate member]
  decide

theorem read_pairs_pad_end (bytes : List UInt8) :
    readPairs ((Numeral.padEnd 11 (hexBytes bytes)).toList ++ [' ']) = bytes := by
  rw [to_list_pad_end, List.append_assoc, ← List.replicate_succ', read_pairs_hex_bytes]

section

variable (painting : Painting)

theorem is_plain_mark (faulty : Bool) : ∀ c ∈ mark painting faulty, IsPlain c := by
  have blank : ∀ count, ∀ c ∈ List.replicate count ' ', IsPlain c := by
    intro count c member
    rw [List.eq_of_mem_replicate member]
    decide
  rw [mark, to_list_pad_end, List.forall_mem_append, List.forall_mem_append]
  refine ⟨⟨?_, blank _⟩, blank 1⟩
  cases faulty with
  | false => simp
  | true =>
    have alarm : ∀ c ∈ (Numeral.padStart 18 "!!").toList, IsPlain c := by
      simp [IsPlain, Numeral.padStart, List.leftpad]
    simp only [if_true, Painting.paint, String.toList_append, List.forall_mem_append]
    exact ⟨⟨painting.plain_on _, alarm⟩, painting.plain_off _⟩

/-- A mark does not open with a bracket. -/
theorem read_code_mark (faulty : Bool) (rest : List Char) :
    readCode (mark painting faulty ++ rest) = none := by
  have opens : (mark painting faulty ++ rest).head? ≠ some '[' := by
    have first := painting.head_on [.red, .bold]
    cases faulty with
    | false => simp [mark, to_list_pad_end]
    | true =>
      simp only [mark, if_true, Painting.paint, to_list_pad_end, String.toList_append]
      cases shown : (painting.on [.red, .bold]).toList with
      | nil => simp [Numeral.padStart, List.leftpad]
      | cons c codes => simpa [shown] using first
  unfold readCode
  split
  · next code => simp [code] at opens
  · rfl

theorem no_feed_render {line : SourceLine} (flat : '\n' ∉ line.text) :
    '\n' ∉ (line.render painting).toList := by
  have digits : '\n' ∉ Nat.toDigits 10 (line.number + 1) := fun feed =>
    absurd (Numeral.is_digit_to_digits (by decide) (by decide) _ '\n' feed) (by decide)
  have shown : '\n' ∉ line.shown painting := by
    have before : '\n' ∉ (painting.on [.red]).toList := fun feed =>
      (painting.plain_on _ _ feed).2 rfl
    have behind : '\n' ∉ (painting.off [.red]).toList := fun feed =>
      (painting.plain_off _ _ feed).2 rfl
    rw [SourceLine.shown]
    split
    · simp [before, behind, flat]
    · exact flat
  simp [to_list_render_line, Numeral.padStart, Numeral.decimal, List.leftpad, digits, shown]

namespace Row

theorem is_plain_left (row : Row) : ∀ c ∈ row.left painting, IsPlain c := by
  cases row with
  | silent line => exact is_plain_mark painting line.faulty
  | code address bytes line | more address bytes =>
    refine List.forall_mem_append.mpr ⟨List.forall_mem_cons.mpr ⟨by decide, ?_⟩, ?_⟩
    · exact is_plain_hex_upper 4 address.toNat
    · exact List.forall_mem_cons.mpr ⟨by decide, List.forall_mem_cons.mpr
        ⟨by decide, is_plain_bytes bytes⟩⟩

/-- What stands in front of the bar reads as the code of the row. -/
theorem read_code_printed (row : Row) : readCode (row.printed painting) = row.code? := by
  have code (address : UInt16) (bytes : List UInt8) (rest : List Char) :
      readCode ('[' :: (Numeral.hexUpper 4 address.toNat).toList ++
        ']' :: ' ' :: ((Numeral.padEnd 11 (hexBytes bytes)).toList ++ [' ']) ++ '|' :: rest) =
        some (address, bytes) := by
    have shown : (((Numeral.padEnd 11 (hexBytes bytes)).toList ++ [' ']) ++ '|' :: rest).takeWhile
        (· != '|') = (Numeral.padEnd 11 (hexBytes bytes)).toList ++ [' '] := by
      rw [List.takeWhile_append_of_pos fun c member => by simp [(is_plain_bytes bytes c member).1]]
      simp
    have value := Numeral.value_hex_upper 4 address.toNat
    have short : (Nat.toDigits 16 address.toNat).length ≤ 4 :=
      (Nat.length_toDigits_le_iff (by decide) (by decide)).mpr address.toNat_lt
    have length := Numeral.length_hex_upper short
    generalize (Numeral.hexUpper 4 address.toNat).toList = digits at value length
    match digits, length with
    | [a, b, c, d], _ =>
      simp only [List.cons_append, List.nil_append, readCode]
      rw [value, UInt16.ofNat_toNat, shown, read_pairs_pad_end]
  cases row with
  | silent line => exact read_code_mark painting line.faulty _
  | code address bytes line => exact code address bytes _
  | more address bytes => exact code address bytes _

/-- What stands behind the bar reads as the source line of the row. -/
theorem read_source_printed (row : Row) :
    readSource (row.printed painting) =
      row.line?.map fun line => (line.number + 1, line.shown painting) := by
  have bar : (row.printed painting).dropWhile (· != '|') = '|' :: row.right painting := by
    rw [printed, List.dropWhile_append_of_pos fun c member => by
      simp [(row.is_plain_left painting c member).1]]
    rfl
  rw [readSource, bar]
  cases row with
  | silent line | code _ _ line => exact read_numbered_render painting line
  | more address bytes => rfl

/-- Both together read as the start of a line of the code. -/
theorem read_start_printed (row : Row) :
    readStart (row.printed painting) =
      row.start?.map fun (number, shown) => (number + 1, shown) := by
  rw [readStart, read_code_printed, read_source_printed]
  cases row <;> rfl

theorem no_feed_printed {row : Row} (flat : ∀ line ∈ row.line?, '\n' ∉ line.text) :
    '\n' ∉ row.printed painting := by
  have left : '\n' ∉ row.left painting := fun feed => (row.is_plain_left painting '\n' feed).2 rfl
  have right : '\n' ∉ row.right painting := by
    cases row with
    | silent line | code _ _ line => simp [Row.right, no_feed_render painting (flat line rfl)]
    | more address bytes => simp [Row.right]
  simp [printed, left, right]

end Row

end

/-! ### Printed dumps -/

/-- What the printed lines of a dump show of an assembled source: every source line once and in order,
every byte once and in order with its address, no more than four in a line, and every line of the code
beginning beside its own source line. -/
structure Shows (painting : Painting) (origin : UInt16) (source : List Char) (assembly : Assembly)
    (printed : List (List Char)) : Prop where
  lines : printed.filterMap readSource = (Text.listedLines source).zipIdx.map fun (text, number) =>
    (number + 1, (sourceLine assembly number text).shown painting)
  bytes : assembly.IsModest → printed.flatMap (fun line => places (readCode line)) =
    assembly.code.toList.zipIdx origin.toNat
  -- behind the end of memory, addresses are shown modulo its size
  turned : (printed.flatMap fun line => places (readCode line)).map
      (Prod.map id (· % Address.space)) =
    (assembly.code.toList.zipIdx origin.toNat).map (Prod.map id (· % Address.space))
  narrow : ∀ line ∈ printed, ∀ shown, readCode line = some shown → shown.2.length ≤ 4
  starts : printed.filterMap readStart = assembly.lines.map fun line =>
    (line.line + 1, line.address, (lineBytes assembly.code line).take 4)

theorem shows_printed (painting : Painting) (origin : UInt16) {source : List Char}
    (paired : Text.returnsPaired source = true) :
    Shows painting origin source (assemble origin source)
      ((rows source (assemble origin source)).map (Row.printed painting)) := by
  have read : (fun row : Row => places (readCode (row.printed painting))) =
      fun row => places row.code? :=
    funext fun row => congrArg places (row.read_code_printed painting)
  constructor
  · have read : readSource ∘ Row.printed painting = fun row => row.line?.map fun line =>
        (line.number + 1, line.shown painting) := funext (Row.read_source_printed painting)
    rw [List.filterMap_map, read, ← List.map_filterMap, rows, filter_map_line?_rows_from, List.map_map]
    rfl
  · intro modest
    have placed := places_rows origin paired (steady_id (assemble_fits modest))
    rw [Prod.map_id, List.map_id, List.map_id] at placed
    rw [List.flatMap_map, read, placed]
  · rw [List.flatMap_map, read]
    exact places_rows origin paired (steady_mod _ _)
  · intro line member shown found
    obtain ⟨row, inside, rfl⟩ := List.mem_map.mp member
    rw [Row.read_code_printed] at found
    exact length_le_of_mem_rows_from inside found
  · have read : readStart ∘ Row.printed painting = fun row => row.start?.map fun (number, shown) =>
        (number + 1, shown) := funext (Row.read_start_printed painting)
    rw [List.filterMap_map, read, ← List.map_filterMap, starts_rows origin paired, List.map_map]
    rfl

end Dump

end Z80Toolchain
