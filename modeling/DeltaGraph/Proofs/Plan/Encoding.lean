import DeltaGraph.Proofs.Text.ByteOrder
import Mathlib.Data.List.Induction

/-!
# Reading back the bytes of plans

Numbers of a fixed width, types behind a marker, rules, counted stages and names
up to a zero byte tell where they end.  Relations do not, but a list of
relations that are read in the committed version can be read from its end, as
long as no name has a zero byte.
-/

namespace DeltaGraph

/-- What is written for items that fit tells the item and where it ends. -/
def Delimits {α : Type} (write : α → List UInt8) (fits : α → Prop) : Prop :=
  ∀ ⦃item other : α⦄, fits item → fits other → ∀ ⦃rest more : List UInt8⦄,
    write item ++ rest = write other ++ more → item = other ∧ rest = more

/-- A list of items is told from what follows it, if another list has equally
many items or what follows cannot be taken for one more item. -/
theorem Delimits.flatMap
    {α : Type}
    {write : α → List UInt8}
    {fits : α → Prop}
    (delimits : Delimits write fits)
    {items others : List α}
    {rest more : List UInt8}
    (ends : items.length = others.length ∨
      (∀ other ∈ others, ∀ tail, rest ≠ write other ++ tail) ∧
        ∀ item ∈ items, ∀ tail, write item ++ tail ≠ more)
    (fit : ∀ item ∈ items, fits item)
    (otherFit : ∀ item ∈ others, fits item)
    (same : items.flatMap write ++ rest = others.flatMap write ++ more) :
    items = others ∧ rest = more := by
  induction items generalizing others with
  | nil =>
      cases others with
      | nil => exact ⟨rfl, same⟩
      | cons other others =>
          rw [List.flatMap_nil, List.nil_append, List.flatMap_cons,
            List.append_assoc] at same
          rcases ends with length | ⟨ends, _⟩
          · cases length
          · exact absurd same (ends other (.head _) _)
  | cons item items inductionHypothesis =>
      rw [List.flatMap_cons, List.append_assoc] at same
      cases others with
      | nil =>
          rcases ends with length | ⟨_, ends⟩
          · cases length
          · exact absurd same (ends item (.head _) _)
      | cons other others =>
          rw [List.flatMap_cons, List.append_assoc] at same
          obtain ⟨rfl, later⟩ :=
            delimits (fit item (.head _)) (otherFit other (.head _)) same
          obtain ⟨rfl, rests⟩ := inductionHypothesis
            (ends.imp Nat.succ.inj fun ⟨ends, otherEnds⟩ =>
              ⟨fun other member => ends other (.tail _ member),
                fun item member => otherEnds item (.tail _ member)⟩)
            (fun item member => fit item (.tail _ member))
            (fun item member => otherFit item (.tail _ member)) later
          exact ⟨rfl, rests⟩

/-! ## Numbers -/

@[simp] theorem length_littleEndian (width number : Nat) :
    (littleEndian width number).length = width := by
  induction width generalizing number with
  | zero => rfl
  | succ width inductionHypothesis =>
      rw [littleEndian, List.length_cons, inductionHypothesis]

@[simp] theorem length_wordBytes (number : Nat) :
    (wordBytes number).length = 8 :=
  length_littleEndian 8 number

/-- Numbers that fit the width are told apart by their bytes. -/
theorem littleEndian_inj
    {width number other : Nat}
    (small : number < 256 ^ width)
    (otherSmall : other < 256 ^ width)
    (same : littleEndian width number = littleEndian width other) :
    number = other := by
  induction width generalizing number other with
  | zero => omega
  | succ width inductionHypothesis =>
      rw [littleEndian, littleEndian, List.cons.injEq] at same
      rw [Nat.pow_succ] at small otherSmall
      have lowest : number % 256 = other % 256 := by
        have bytes := congrArg UInt8.toNat same.1
        rwa [UInt8.toNat_ofNat', UInt8.toNat_ofNat'] at bytes
      have others : number / 256 = other / 256 :=
        inductionHypothesis (by omega) (by omega) same.2
      omega

/-- A number of fixed width ends where its width says. -/
theorem delimits_littleEndian (width : Nat) :
    Delimits (littleEndian width) (· < 256 ^ width) := by
  intro number other small otherSmall rest more same
  obtain ⟨bytes, rests⟩ := List.append_inj same (by simp)
  exact ⟨littleEndian_inj small otherSmall bytes, rests⟩

theorem delimits_wordBytes : Delimits wordBytes (· < 2 ^ 64) := by
  have narrow : (256 : Nat) ^ 8 = 2 ^ 64 := by decide
  exact narrow ▸ delimits_littleEndian 8

theorem wordBytes_inj
    {number other : Nat}
    (small : number < 2 ^ 64)
    (otherSmall : other < 2 ^ 64)
    (same : wordBytes number = wordBytes other) : number = other := by
  have narrow : (256 : Nat) ^ 8 = 2 ^ 64 := by decide
  exact littleEndian_inj (narrow ▸ small) (narrow ▸ otherSmall) same

/-! ## Types, rules and stages -/

/-- The number of a type has 32 bits. -/
def FitsType (type : Option TypeId) : Prop := ∀ id ∈ type, id.number < 2 ^ 32

instance (type : Option TypeId) : Decidable (FitsType type) :=
  inferInstanceAs (Decidable (∀ id ∈ type, id.number < 2 ^ 32))

/-- The bytes of an optional type tell whether there is one and where they
end. -/
theorem delimits_typeBytes : Delimits typeBytes FitsType := by
  intro type other fits otherFits rest more same
  cases type with
  | none =>
      cases other with
      | none => exact ⟨rfl, (List.cons.inj same).2⟩
      | some other => cases (List.cons.inj same).1
  | some type =>
      cases other with
      | none => cases (List.cons.inj same).1
      | some other =>
          have narrow : (256 : Nat) ^ 4 = 2 ^ 32 := by decide
          obtain ⟨number, rests⟩ :=
            delimits_littleEndian 4 (narrow ▸ fits type rfl)
            (narrow ▸ otherFits other rfl) (List.cons.inj same).2
          exact ⟨congrArg some (Id.ext number), rests⟩

/-- The two directions are written as different bytes. -/
theorem Direction.byte_injective : Function.Injective Direction.byte := by
  intro direction other
  cases direction <;> cases other <;> simp [byte]

/-- The versions of the graph are written as different bytes. -/
theorem Version.byte_injective : Function.Injective Version.byte := by
  intro version other
  cases version <;> cases other <;> simp [byte]

/-- The slot of a rule has 64 bits, and the number of its type 32. -/
structure Rule.Fits (rule : Rule) : Prop where
  slot : rule.slot < 2 ^ 64
  type : FitsType rule.type

/-- A rule ends after its slot, direction, type and version. -/
theorem delimits_ruleBytes : Delimits Rule.bytes Rule.Fits := by
  rintro ⟨slot, direction, version, type⟩
    ⟨otherSlot, otherDirection, otherVersion, otherType⟩
    fits otherFits rest more same
  simp only [Rule.bytes, List.append_assoc, List.cons_append, List.nil_append]
    at same
  obtain ⟨rfl, marked⟩ := delimits_wordBytes fits.slot otherFits.slot same
  obtain ⟨directions, versioned⟩ := List.cons.inj marked
  obtain ⟨versions, typed⟩ := List.cons.inj versioned
  obtain ⟨rfl, rests⟩ := delimits_typeBytes fits.type otherFits.type typed
  rw [Direction.byte_injective directions, Version.byte_injective versions]
  exact ⟨rfl, rests⟩

/-- The number of rules has 64 bits, and the rules fit. -/
structure Stage.Fits (stage : Stage) : Prop where
  length : stage.length < 2 ^ 64
  rules : ∀ rule ∈ stage, rule.Fits

/-- A stage is its length, then its rules: its bytes tell where it ends. -/
theorem delimits_stageBytes : Delimits Stage.bytes Stage.Fits := by
  intro stage other fits otherFits rest more same
  rw [Stage.bytes, Stage.bytes, List.append_assoc, List.append_assoc] at same
  obtain ⟨length, rules⟩ := delimits_wordBytes fits.length otherFits.length same
  exact delimits_ruleBytes.flatMap (.inl length) fits.rules otherFits.rules
    rules

/-! ## Names -/

/-- The character that ends a name in bytes is not part of the name. -/
def HasNoZero (name : String) : Prop := '\x00' ∉ name.toList

instance (name : String) : Decidable (HasNoZero name) :=
  inferInstanceAs (Decidable ('\x00' ∉ name.toList))

theorem textBytes_injective : Function.Injective textBytes := by
  intro text other same
  rcases lt_trichotomy text other with less | equal | greater
  · exact absurd (same ▸ textBytes_lt less) (List.lt_irrefl _)
  · exact equal
  · exact absurd (same ▸ textBytes_lt greater) (List.lt_irrefl _)

/-- Only one character has a zero byte. -/
theorem eq_zero_of_zero_mem
    {char : Char}
    (zero : 0 ∈ String.utf8EncodeChar char) :
    char = '\x00' := by
  have bound : char.val.toNat < 0x110000 := by
    rcases char.valid with low | high <;> omega
  have code : char.val.toNat = 0 := by
    unfold String.utf8EncodeChar at zero
    generalize char.val.toNat = code at zero bound
    simp only at zero
    split_ifs at zero
    all_goals
      simp (disch := omega) only [List.mem_cons, List.not_mem_nil, or_false,
        ← UInt8.toNat_inj, toNat_byte, UInt8.toNat_zero] at zero
      omega
  exact Char.ext (UInt32.toNat_inj.mp code)

/-- The bytes of a name without the zero character hold no zero byte. -/
theorem HasNoZero.zero_not_mem {name : String} (clean : HasNoZero name) :
    0 ∉ textBytes name := by
  rw [textBytes_eq]
  intro zero
  obtain ⟨char, member, inside⟩ := List.mem_flatMap.mp zero
  exact clean (eq_zero_of_zero_mem inside ▸ member)

/-- The first zero tells where a list without zeros ends. -/
theorem append_zero_inj
    {bytes others rest more : List UInt8}
    (clean : 0 ∉ bytes)
    (otherClean : 0 ∉ others)
    (same : bytes ++ 0 :: rest = others ++ 0 :: more) :
    bytes = others ∧ rest = more := by
  induction bytes generalizing others with
  | nil =>
      cases others with
      | nil => exact ⟨rfl, (List.cons.inj same).2⟩
      | cons other others =>
          exact absurd ((List.cons.inj same).1 ▸ List.mem_cons_self) otherClean
  | cons byte bytes inductionHypothesis =>
      rw [List.mem_cons, not_or] at clean
      cases others with
      | nil => exact absurd (List.cons.inj same).1.symm clean.1
      | cons other others =>
          rw [List.mem_cons, not_or] at otherClean
          obtain ⟨first, later⟩ := List.cons.inj same
          obtain ⟨rfl, rests⟩ := inductionHypothesis clean.2 otherClean.2 later
          exact ⟨by rw [first], rests⟩

/-- A name and the zero byte after it. -/
def nameBytes (name : String) : List UInt8 := textBytes name ++ [0]

/-- A name without the zero character ends at its zero byte. -/
theorem delimits_nameBytes : Delimits nameBytes HasNoZero := by
  intro name other clean otherClean rest more same
  rw [nameBytes, nameBytes, List.append_assoc, List.append_assoc,
    List.singleton_append, List.singleton_append] at same
  obtain ⟨bytes, rests⟩ :=
    append_zero_inj clean.zero_not_mem otherClean.zero_not_mem same
  exact ⟨textBytes_injective bytes, rests⟩

/-- The name has a first character, and it is not one of those whose byte marks
a type. -/
def StartsVisibly (name : String) : Prop :=
  ∃ first rest, name.toList = first :: rest ∧ '\x01' < first

/-- The first byte of a visible character lies above the markers zero and
one. -/
theorem exists_first_byte {char : Char} (visible : '\x01' < char) :
    ∃ byte rest, String.utf8EncodeChar char = byte :: rest ∧ 1 < byte := by
  have code : 1 < char.val.toNat := visible
  have bound : char.val.toNat < 0x110000 := by
    rcases char.valid with low | high <;> omega
  unfold String.utf8EncodeChar
  generalize char.val.toNat = code at *
  simp only
  split_ifs
  all_goals
    refine ⟨_, _, rfl, ?_⟩
    simp (disch := omega)
      only [UInt8.lt_iff_toNat_lt, toNat_byte, UInt8.toNat_one]
    omega

/-- The bytes go on with the marker of a type. -/
def StartsWithMarker (bytes : List UInt8) : Prop :=
  ∃ marker rest, bytes = marker :: rest ∧ marker ≤ 1

/-- Bytes that start with a marker are never those of a name that starts
visibly. -/
theorem StartsWithMarker.ne_nameBytes
    {bytes : List UInt8}
    (marked : StartsWithMarker bytes)
    {name : String}
    (visible : StartsVisibly name)
    (tail : List UInt8) :
    bytes ≠ nameBytes name ++ tail := by
  rintro rfl
  obtain ⟨marker, others, same, small⟩ := marked
  obtain ⟨first, chars, written, later⟩ := visible
  obtain ⟨byte, bytes, encoded, large⟩ := exists_first_byte later
  rw [nameBytes, textBytes_eq, written, List.flatMap_cons, encoded] at same
  have equal : byte = marker := (List.cons.inj same).1
  rw [equal, UInt8.lt_iff_toNat_lt] at large
  rw [UInt8.le_iff_toNat_le] at small
  omega

/-- Names are told from a marker that follows them, if there are equally many or
none starts like a marker. -/
theorem names_inj
    {names others : List String}
    {rest more : List UInt8}
    (clean : ∀ name ∈ names, HasNoZero name)
    (otherClean : ∀ name ∈ others, HasNoZero name)
    (counted : names.length = others.length ∨
      (∀ name ∈ names, StartsVisibly name) ∧
        ∀ name ∈ others, StartsVisibly name)
    (marked : StartsWithMarker rest)
    (otherMarked : StartsWithMarker more)
    (same : names.flatMap nameBytes ++ rest =
      others.flatMap nameBytes ++ more) :
    names = others ∧ rest = more := by
  refine delimits_nameBytes.flatMap (counted.imp_right ?_) clean otherClean same
  rintro ⟨visible, otherVisible⟩
  exact ⟨fun other member => marked.ne_nameBytes (otherVisible other member),
    fun name member tail =>
      (otherMarked.ne_nameBytes (visible name member) tail).symm⟩

/-! ## Relations -/

/-- The last zero tells where a list without zeros begins. -/
theorem zero_append_inj
    {bytes others rest more : List UInt8}
    (clean : 0 ∉ bytes)
    (otherClean : 0 ∉ others)
    (same : rest ++ [0] ++ bytes = more ++ [0] ++ others) :
    rest = more ∧ bytes = others := by
  have reversed := congrArg List.reverse same
  simp only [List.reverse_append, List.reverse_singleton, List.singleton_append]
    at reversed
  obtain ⟨first, rests⟩ := append_zero_inj (List.mem_reverse.not.mpr clean)
    (List.mem_reverse.not.mpr otherClean) reversed
  exact ⟨List.reverse_injective rests, List.reverse_injective first⟩

namespace EdgeLookup

/-- What the bytes of a relation show. -/
def untyped (lookup : EdgeLookup) : EdgeLookup := { lookup with type := none }

theorem untyped_eq_iff {lookup other : EdgeLookup} :
    lookup.untyped = other.untyped ↔
      lookup.name = other.name ∧ lookup.source = other.source ∧
      lookup.target = other.target ∧ lookup.version = other.version := by
  simp [untyped]

/-- A lookup is known from what it is without its type, and its type. -/
theorem eq_of_untyped
    {lookup other : EdgeLookup}
    (same : lookup.untyped = other.untyped)
    (types : lookup.type = other.type) : lookup = other := by
  obtain ⟨names, sources, targets, versions⟩ := untyped_eq_iff.mp same
  cases lookup
  cases other
  exact EdgeLookup.mk.injEq .. |>.mpr ⟨names, sources, targets, types, versions⟩

/-- The slots have 64 bits, the relation is read in the committed version, and
its name has no zero. -/
structure Fits (lookup : EdgeLookup) : Prop where
  source : lookup.source < 2 ^ 64
  target : lookup.target < 2 ^ 64
  committed : lookup.version = .permanent
  clean : HasNoZero lookup.name

/-- The bytes of a list of relations end with the zero of the committed
version. -/
theorem exists_bytes_eq {lookups : List EdgeLookup} (filled : lookups ≠ [])
    (fits : ∀ lookup ∈ lookups, lookup.Fits) :
    ∃ front, lookups.flatMap bytes = front ++ [0] := by
  obtain ⟨others, last, rfl⟩ := lookups.eq_nil_or_concat'.resolve_left filled
  have committed := (fits last (by simp)).committed
  refine ⟨others.flatMap bytes ++
    (textBytes last.name ++ wordBytes last.source ++
      wordBytes last.target), ?_⟩
  simp [bytes, committed, Version.byte]

/-- A relation at the end of a list is told from those before it. -/
theorem untyped_inj
    {front others : List EdgeLookup}
    {last other : EdgeLookup}
    (length : front.length = others.length)
    (frontFits : ∀ lookup ∈ front, lookup.Fits)
    (othersFit : ∀ lookup ∈ others, lookup.Fits)
    (fits : last.Fits)
    (otherFits : other.Fits)
    (same : front.flatMap bytes ++ last.bytes =
      others.flatMap bytes ++ other.bytes) :
    front.flatMap bytes = others.flatMap bytes ∧
      last.untyped = other.untyped := by
  -- the version and the slots have fixed widths; the name begins after the last
  -- zero
  simp only [bytes, ← List.append_assoc] at same
  obtain ⟨same, _⟩ := List.append_inj' same rfl
  obtain ⟨same, targets⟩ := List.append_inj' same (by simp)
  obtain ⟨same, sources⟩ := List.append_inj' same (by simp)
  have named : front.flatMap bytes = others.flatMap bytes ∧
      textBytes last.name = textBytes other.name := by
    by_cases empty : front = []
    · subst empty
      obtain rfl := List.length_eq_zero_iff.mp length.symm
      exact ⟨rfl, same⟩
    · have filled : others ≠ [] := by
        rintro rfl
        exact empty (List.length_eq_zero_iff.mp length)
      obtain ⟨before, ends⟩ := exists_bytes_eq empty frontFits
      obtain ⟨otherBefore, otherEnds⟩ := exists_bytes_eq filled othersFit
      rw [ends, otherEnds] at same ⊢
      obtain ⟨rests, names⟩ :=
        zero_append_inj fits.clean.zero_not_mem otherFits.clean.zero_not_mem
          same
      exact ⟨by rw [rests], names⟩
  exact ⟨named.1, untyped_eq_iff.mpr ⟨textBytes_injective named.2,
    wordBytes_inj fits.source otherFits.source sources,
    wordBytes_inj fits.target otherFits.target targets,
    fits.committed.trans otherFits.committed.symm⟩⟩

/-- The bytes of equally many relations tell them, up to their types. -/
theorem map_untyped_inj
    {lookups others : List EdgeLookup}
    (length : lookups.length = others.length)
    (fits : ∀ lookup ∈ lookups, lookup.Fits)
    (otherFits : ∀ lookup ∈ others, lookup.Fits)
    (same : lookups.flatMap bytes = others.flatMap bytes) :
    lookups.map untyped = others.map untyped := by
  induction lookups using List.reverseRecOn generalizing others with
  | nil => rw [List.length_eq_zero_iff.mp length.symm]
  | append_singleton front last inductionHypothesis =>
      have filled : others ≠ [] := by
        rintro rfl
        simp at length
      obtain ⟨otherFront, other, rfl⟩ :=
        others.eq_nil_or_concat'.resolve_left filled
      rw [List.length_append, List.length_append] at length
      have lengths : front.length = otherFront.length := Nat.succ.inj length
      have fitsFront : ∀ lookup ∈ front, lookup.Fits := fun lookup member =>
        fits lookup (List.mem_append_left _ member)
      have otherFitsFront : ∀ lookup ∈ otherFront, lookup.Fits :=
        fun lookup member =>
          otherFits lookup (List.mem_append_left _ member)
      simp only [List.flatMap_append, List.flatMap_singleton] at same
      obtain ⟨fronts, lasts⟩ := untyped_inj lengths fitsFront otherFitsFront
        (fits last (by simp)) (otherFits other (by simp)) same
      rw [List.map_append, List.map_append,
        inductionHypothesis lengths fitsFront otherFitsFront fronts,
        List.map_singleton, List.map_singleton, lasts]

end EdgeLookup

end DeltaGraph
