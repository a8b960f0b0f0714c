/-
# Strings of named options

Option strings that list entries `name=parameters`, with separators between entries and between
parameters: how they are split, joined and read back.

* `Parsed` : a result together with the errors reported on the way;
* `toDecimal` : decimal numbers, read within bounds and printed;
* `Schema` : optional parameters, read from and printed to parts of a string;
* `Schema.parseParams_printed` : the parts of printed parameters give them back;
* `MapParser` : maps of names to parameters;
* `MapParser.roundTrips_iff` : a map is read back from what is printed exactly when the
  parameters of every entry are.
-/
import Mathlib

namespace OverrideString

/-- The characters of a string. -/
abbrev Str : Type := List Char

/-! ## Results with reported errors -/

/-- Why parsing stops. -/
inductive Refusal : Type where
  | error
  | assertion
  deriving DecidableEq, Repr

/-- The errors that were reported, and the result unless parsing stopped. -/
structure Parsed (α : Type) : Type where
  reported : List Str
  value : Except Refusal α

namespace Parsed

variable {α β : Type}

def accept (a : α) : Parsed α := ⟨[], .ok a⟩

/-- `opt.error(message)`, and parsing stops. -/
def reject (message : Str) : Parsed α := ⟨[message], .error .error⟩

def bind (x : Parsed α) (f : α → Parsed β) : Parsed β :=
  match x.value with
  | .error refusal => ⟨x.reported, .error refusal⟩
  | .ok a => ⟨x.reported ++ (f a).reported, (f a).value⟩

@[simp] theorem accept_value (a : α) : (accept a).value = .ok a := rfl

@[simp] theorem reject_value (message : Str) :
    (reject message : Parsed α).value = .error .error := rfl

theorem bind_value_eq_ok {x : Parsed α} {f : α → Parsed β} {b : β} :
    (x.bind f).value = .ok b ↔ ∃ a, x.value = .ok a ∧ (f a).value = .ok b := by
  unfold bind
  cases x.value with
  | error refusal => simp
  | ok a => simp

end Parsed

/-! ## Splitting -/

/-- No part contains the separator. -/
theorem notMem_of_mem_splitOn {c : Char} {s part : Str} (h : part ∈ s.splitOn c) : c ∉ part := by
  induction s generalizing part with
  | nil =>
    obtain rfl := List.mem_singleton.mp h
    exact List.not_mem_nil
  | cons d s ih =>
    rw [List.splitOn_cons_eq_if_modifyHead] at h
    split at h
    · rcases List.mem_cons.mp h with rfl | h
      · exact List.not_mem_nil
      · exact ih h
    · next hne =>
        have hdc : ¬ c = d := fun heq => hne (by simp [heq])
        cases hparts : s.splitOn c with
        | nil => exact absurd hparts (List.splitOn_ne_nil c s)
        | cons first rest =>
          rw [hparts, List.modifyHead_cons] at h
          rcases List.mem_cons.mp h with rfl | h
          · rw [List.mem_cons, not_or]
            exact ⟨hdc, ih (by simp [hparts])⟩
          · exact ih (by simp [hparts, h])

/-- The characters of a part are characters of the string. -/
theorem mem_of_mem_splitOn {c d : Char} {s part : Str} (h : part ∈ s.splitOn c) (hd : d ∈ part) :
    d ∈ s := by
  rw [← @List.intercalate_splitOn _ s _ _ c]
  generalize s.splitOn c = parts at h
  induction parts with
  | nil => cases h
  | cons first rest ih =>
    cases rest with
    | nil =>
      obtain rfl := List.mem_singleton.mp h
      simpa using hd
    | cons second rest =>
      rw [List.intercalate_cons_cons]
      rcases List.mem_cons.mp h with rfl | h
      · simp [hd]
      · simp [ih h]

theorem notMem_intercalate {c d : Char} {parts : List Str} (hcd : d ≠ c)
    (h : ∀ part ∈ parts, d ∉ part) : d ∉ [c].intercalate parts := by
  induction parts with
  | nil => simp [List.intercalate]
  | cons first rest ih =>
    have hrest := ih fun part hpart => h part (List.mem_cons_of_mem _ hpart)
    cases rest with
    | nil => simpa [List.intercalate] using h first List.mem_cons_self
    | cons second rest =>
      rw [List.intercalate_cons_cons]
      simp [h first List.mem_cons_self, hcd, hrest]

theorem dropLast_flatMap_separator (c : Char) (parts : List Str) :
    (parts.flatMap fun part => part ++ [c]).dropLast = [c].intercalate parts := by
  induction parts with
  | nil => rfl
  | cons first rest ih =>
    cases rest with
    | nil => simp [List.intercalate]
    | cons second rest =>
      have hne : (second :: rest).flatMap (fun part => part ++ [c]) ≠ [] := by simp
      rw [List.flatMap_cons, List.dropLast_append_of_ne_nil hne, ih, List.intercalate_cons_cons]

/-- Joining with a separator that is left out after nothing. -/
def accumulate (c : Char) (parts : List Str) : Str :=
  parts.foldl (fun joined part => if joined = [] then part else joined ++ c :: part) []

theorem foldl_accumulate (c : Char) (parts : List Str) {joined : Str} (hne : joined ≠ []) :
    parts.foldl (fun joined part => if joined = [] then part else joined ++ c :: part) joined =
      joined ++ parts.flatMap fun part => c :: part := by
  induction parts generalizing joined with
  | nil => simp
  | cons part parts ih =>
    rw [List.foldl_cons, if_neg hne, ih (by simp), List.flatMap_cons]
    simp

theorem accumulate_eq (c : Char) {parts : List Str} (h : ∀ part ∈ parts, part ≠ []) :
    accumulate c parts = [c].intercalate parts := by
  cases parts with
  | nil => rfl
  | cons first rest =>
    rw [accumulate, List.foldl_cons, if_pos rfl, foldl_accumulate c rest (h first List.mem_cons_self)]
    clear h
    induction rest generalizing first with
    | nil => simp [List.intercalate]
    | cons second rest ih =>
      rw [List.intercalate_cons_cons, ← ih second, List.flatMap_cons]
      simp

/-! ## Decimal numbers -/

/-- `std::to_string`. -/
def toDecimal (n : ℤ) : Str :=
  if n < 0 then '-' :: Nat.toDigits 10 n.natAbs else Nat.toDigits 10 n.natAbs

/-- `getAsUnsignedInteger` in base ten. -/
def getAsUnsignedInteger (s : Str) : Option ℕ :=
  if s ≠ [] ∧ s.all Char.isDigit ∧ Nat.ofDigitChars 10 s 0 < 2 ^ 64 then
    some (Nat.ofDigitChars 10 s 0)
  else none

/-- `getAsSignedInteger` in base ten: a number that fits into 64 bits with its sign. -/
def getAsSignedInteger : Str → Option ℤ
  | '-' :: s => (getAsUnsignedInteger s).bind fun n => if n ≤ 2 ^ 63 then some (-n) else none
  | s => (getAsUnsignedInteger s).bind fun n => if n < 2 ^ 63 then some n else none

theorem getAsUnsignedInteger_toDigits {n : ℕ} (h : n < 2 ^ 64) :
    getAsUnsignedInteger (Nat.toDigits 10 n) = some n := by
  have hdigits : (Nat.toDigits 10 n).all Char.isDigit = true :=
    List.all_eq_true.mpr fun c hc => Nat.isDigit_of_mem_toDigits (by norm_num) (by norm_num) hc
  unfold getAsUnsignedInteger
  rw [Nat.ofDigitChars_ten_toDigits, if_pos ⟨Nat.toDigits_ne_nil, hdigits, h⟩]

theorem isDigit_ne {c d : Char} (hc : c.isDigit = true) (hd : d.isDigit = false) : c ≠ d := by
  rintro rfl
  rw [hc] at hd
  cases hd

theorem notMem_toDigits {n : ℕ} {d : Char} (hd : d.isDigit = false) : d ∉ Nat.toDigits 10 n :=
  fun h => isDigit_ne (Nat.isDigit_of_mem_toDigits (by norm_num) (by norm_num) h) hd rfl

theorem notMem_toDecimal {n : ℤ} {d : Char} (hd : d.isDigit = false) (hne : d ≠ '-') :
    d ∉ toDecimal n := by
  unfold toDecimal
  split
  · rw [List.mem_cons, not_or]
    exact ⟨hne, notMem_toDigits hd⟩
  · exact notMem_toDigits hd

theorem toDecimal_ne_nil (n : ℤ) : toDecimal n ≠ [] := by
  unfold toDecimal
  split
  · simp
  · exact Nat.toDigits_ne_nil

/-- **Numbers are read back.** -/
theorem getAsSignedInteger_toDecimal {n : ℤ} (hlow : -2 ^ 63 ≤ n) (hhigh : n < 2 ^ 63) :
    getAsSignedInteger (toDecimal n) = some n := by
  unfold toDecimal
  split
  · next hneg =>
      rw [getAsSignedInteger, getAsUnsignedInteger_toDigits (by omega), Option.bind_some,
        if_pos (by omega)]
      congr 1
      omega
  · next hpos =>
      have hfirst : ∀ s, Nat.toDigits 10 n.natAbs ≠ '-' :: s := fun s hs =>
        notMem_toDigits (n := n.natAbs) (d := '-') (by decide) (by simp [hs])
      rw [getAsSignedInteger.eq_2 _ hfirst, getAsUnsignedInteger_toDigits (by omega),
        Option.bind_some, if_pos (by omega)]
      congr 1
      omega

/-- Larger numbers are not read. -/
theorem getAsSignedInteger_toDecimal_of_le {n : ℤ} (h : 2 ^ 63 ≤ n) :
    getAsSignedInteger (toDecimal n) = none := by
  have hfirst : ∀ s, Nat.toDigits 10 n.natAbs ≠ '-' :: s := fun s hs =>
    notMem_toDigits (n := n.natAbs) (d := '-') (by decide) (by simp [hs])
  rw [toDecimal, if_neg (by omega), getAsSignedInteger.eq_2 _ hfirst, getAsUnsignedInteger,
    Nat.ofDigitChars_ten_toDigits]
  split_ifs
  · rw [Option.bind_some, if_neg (by omega)]
  · rfl

/-! ## Optional parameters -/

/-- Optional parameters of a string: how a part is read, and how a value is printed. -/
structure Schema : Type 1 where
  Param : Type
  Value : Param → Type
  decEq : DecidableEq Param
  /-- The parameters in the order they are printed. -/
  params : List Param
  nodup : params.Nodup
  complete : ∀ k, k ∈ params
  /-- The parameter a part gives and its value, or nothing where the part is skipped. -/
  read : Str → Parsed (Option (Sigma Value))
  print : (k : Param) → Value k → Str
  /-- The error for a part that gives a parameter again. -/
  duplicate : Param → Str → Str

variable {strs : List Str}

namespace Schema

variable (S : Schema)

instance : DecidableEq S.Param := S.decEq

/-- The values that are set. -/
abbrev Params : Type := (k : S.Param) → Option (S.Value k)

/-- Nothing is set. -/
def Params.empty : S.Params := fun _ => none

/-- One part. -/
def parseParam (params : S.Params) (param : Str) : Parsed S.Params :=
  (S.read param).bind fun
    | none => .accept params
    | some ⟨k, v⟩ =>
      if (params k).isSome then .reject (S.duplicate k param)
      else .accept (Function.update params k (some v))

/-- The loop over the parts. -/
def parseParts : List Str → S.Params → Parsed S.Params
  | [], params => .accept params
  | param :: rest, params => (S.parseParam params param).bind (parseParts rest)

/-- The parts that are printed. -/
def parts (params : S.Params) : List Str :=
  S.params.filterMap fun k => (params k).map (S.print k)

variable {S} {params : S.Params}

theorem mem_parts {part : Str} :
    part ∈ S.parts params ↔ ∃ k v, params k = some v ∧ S.print k v = part := by
  simp only [parts, List.mem_filterMap, Option.map_eq_some_iff]
  constructor
  · rintro ⟨k, -, v, hv, rfl⟩
    exact ⟨k, v, hv, rfl⟩
  · rintro ⟨k, v, hv, rfl⟩
    exact ⟨k, S.complete k, v, hv, rfl⟩

theorem parts_eq_nil : S.parts params = [] ↔ params = Params.empty S := by
  simp only [parts, List.filterMap_eq_nil_iff, Option.map_eq_none_iff]
  exact ⟨fun h => funext fun k => h k (S.complete k), fun h k _ => by rw [h]; rfl⟩

/-- The loop over the parts of some parameters sets what they set. -/
theorem parseParts_filterMap {ks : List S.Param} (hks : ks.Nodup) (acc : S.Params)
    (hacc : ∀ k ∈ ks, acc k = none)
    (hread : ∀ k v, params k = some v → (S.read (S.print k v)).value = .ok (some ⟨k, v⟩)) :
    (S.parseParts (ks.filterMap fun k => (params k).map (S.print k)) acc).value =
      .ok fun k => if k ∈ ks then params k else acc k := by
  induction ks generalizing acc with
  | nil => simp [parseParts]
  | cons k ks ih =>
    obtain ⟨hk, hks⟩ := List.nodup_cons.mp hks
    cases hv : params k with
    | none =>
      rw [List.filterMap_cons_none (by simp [hv]), ih hks acc fun k' hk' =>
        hacc k' (List.mem_cons_of_mem k hk')]
      congr 1
      funext k'
      by_cases hkk : k' = k
      · subst hkk
        simp [hk, hv, hacc k' List.mem_cons_self]
      · simp [hkk]
    | some v =>
      rw [List.filterMap_cons_some (by rw [hv]; rfl), parseParts]
      have hone : (S.parseParam acc (S.print k v)).value =
          .ok (Function.update acc k (some v)) := by
        rw [parseParam, Parsed.bind_value_eq_ok]
        refine ⟨_, hread k v hv, ?_⟩
        simp [hacc k List.mem_cons_self]
      rw [Parsed.bind_value_eq_ok.mpr ⟨_, hone, ih hks _ fun k' hk' => ?_⟩]
      · congr 1
        funext k'
        by_cases hkk : k' = k
        · subst hkk
          simp [hk, hv]
        · simp [hkk]
      · have hkk : k' ≠ k := fun heq => hk (heq ▸ hk')
        rw [Function.update_of_ne hkk]
        exact hacc k' (List.mem_cons_of_mem k hk')

/-- **Printed parameters are read back**, if every printed value is. -/
theorem parseParams_printed
    (hread : ∀ k v, params k = some v → (S.read (S.print k v)).value = .ok (some ⟨k, v⟩)) :
    (S.parseParts (S.parts params) (Params.empty S)).value = .ok params := by
  have hrun := parseParts_filterMap S.nodup (Params.empty S) (fun _ _ => rfl) hread
  rw [parts, hrun]
  congr 1
  funext k
  rw [if_pos (S.complete k)]

/-- Every part of an accepted string is read. -/
theorem exists_read {acc result : S.Params}
    (h : (S.parseParts strs acc).value = .ok result) {part : Str} (hpart : part ∈ strs) :
    ∃ reading, (S.read part).value = .ok reading := by
  induction strs generalizing acc with
  | nil => cases hpart
  | cons first rest ih =>
    rw [parseParts, Parsed.bind_value_eq_ok] at h
    obtain ⟨next, hfirst, hrest⟩ := h
    rcases List.mem_cons.mp hpart with rfl | hpart
    · rw [parseParam, Parsed.bind_value_eq_ok] at hfirst
      obtain ⟨reading, hreading, -⟩ := hfirst
      exact ⟨reading, hreading⟩
    · exact ih hrest hpart

/-- An accepted string sets something, if no part is skipped. -/
theorem exists_isSome (hread : ∀ s reading, (S.read s).value = .ok reading → reading ≠ none)
    {acc result : S.Params} (h : (S.parseParts strs acc).value = .ok result)
    (hne : strs ≠ [] ∨ ∃ k, (acc k).isSome) : ∃ k, (result k).isSome := by
  induction strs generalizing acc with
  | nil =>
    obtain rfl := Except.ok.inj h
    exact hne.resolve_left fun hno => hno rfl
  | cons first rest ih =>
    rw [parseParts, Parsed.bind_value_eq_ok] at h
    obtain ⟨next, hfirst, hrest⟩ := h
    refine ih hrest (Or.inr ?_)
    rw [parseParam, Parsed.bind_value_eq_ok] at hfirst
    obtain ⟨reading, hreading, hnext⟩ := hfirst
    cases reading with
    | none => exact absurd rfl (hread _ _ hreading)
    | some found =>
      simp only at hnext
      split at hnext
      · cases hnext
      · obtain rfl := Except.ok.inj hnext
        exact ⟨found.1, by simp⟩

end Schema

/-! ## Maps of names to parameters -/

/-- `llvm::StringMap`; the order of the entries is the order of iteration. -/
abbrev StringMap (P : Type) : Type := AList fun _ : Str => P

/-- A parser of option strings: how the parameters of a name are read, how an entry is printed,
and the error for an entry without exactly one name. -/
structure MapParser (P : Type) : Type where
  parseParams : Str → Parsed P
  printEntry : Str → P → Str
  formatError : Str

namespace MapParser

variable {P : Type} (M : MapParser P)

/-- The loop over the entries. -/
def parseEntries : List Str → StringMap P → Parsed (StringMap P)
  | [], value => .accept value
  | entry :: rest, value =>
    match entry.splitOn '=' with
    | [name, paramString] =>
      (M.parseParams paramString).bind fun params => parseEntries rest (value.insert name params)
    | _ => .reject (M.formatError ++ entry)

/-- `parse`. -/
def parse (arg : Str) (value : StringMap P) : Parsed (StringMap P) :=
  M.parseEntries (arg.splitOn ',') value

/-- The loop of `toString`: a separator after every entry but the last. -/
def printEntries : List ((_ : Str) × P) → Str
  | [] => []
  | [⟨name, params⟩] => M.printEntry name params
  | ⟨name, params⟩ :: rest => M.printEntry name params ++ ',' :: printEntries rest

/-- `toString`. -/
def toString (value : StringMap P) : Str := M.printEntries value.entries

/-- `parse` accepts what `toString` prints, and the map has the same entries. -/
def RoundTrips (value : StringMap P) : Prop :=
  ∃ value', (M.parse (M.toString value) ∅).value = .ok value' ∧
    ∀ name, value'.lookup name = value.lookup name

/-- `parse` accepts some string with these entries, whatever their order. -/
def Produced (value : StringMap P) : Prop :=
  ∃ arg value', (M.parse arg ∅).value = .ok value' ∧
    ∀ name, value.lookup name = value'.lookup name

variable {M}

theorem printEntries_eq (entries : List ((_ : Str) × P)) : M.printEntries entries =
      [','].intercalate (entries.map fun entry => M.printEntry entry.1 entry.2) := by
  induction entries with
  | nil => rfl
  | cons entry rest ih =>
    cases rest with
    | nil => simp [printEntries, List.intercalate]
    | cons next rest =>
      rw [printEntries, ih, List.map_cons, List.map_cons, List.map_cons, List.intercalate_cons_cons]
      · simp
      · simp

variable {value value' : StringMap P}

/-- What accepted entries leave: names without separators, and parameters that were read. -/
theorem mem_of_parseEntries (Q : P → Prop) (h : (M.parseEntries strs value).value = .ok value')
    (hstrs : ∀ entry ∈ strs, ',' ∉ entry)
    (hQ : ∀ s params, (M.parseParams s).value = .ok params → Q params)
    (hvalue : ∀ name params, value.lookup name = some params → ',' ∉ name ∧ '=' ∉ name ∧ Q params) :
    ∀ name params, value'.lookup name = some params → ',' ∉ name ∧ '=' ∉ name ∧ Q params := by
  induction strs generalizing value with
  | nil =>
    obtain rfl := Except.ok.inj h
    exact hvalue
  | cons entry rest ih =>
    rw [parseEntries] at h
    split at h
    · next name paramString hsplit =>
        obtain ⟨params, hparams, hrest⟩ := Parsed.bind_value_eq_ok.mp h
        refine ih hrest (fun e he => hstrs e (List.mem_cons_of_mem entry he)) ?_
        intro name' params' hlookup
        have hname : name ∈ entry.splitOn '=' := by simp [hsplit]
        by_cases hne : name' = name
        · subst hne
          rw [AList.lookup_insert] at hlookup
          obtain rfl := Option.some.inj hlookup
          exact ⟨fun hc => hstrs entry List.mem_cons_self (mem_of_mem_splitOn hname hc),
            notMem_of_mem_splitOn hname, hQ _ _ hparams⟩
        · rw [AList.lookup_insert_ne hne] at hlookup
          exact hvalue name' params' hlookup
    · cases h

/-- Accepted entries leave a map that is not empty. -/
theorem exists_of_parseEntries (h : (M.parseEntries strs value).value = .ok value')
    (hne : strs ≠ [] ∨ ∃ name, name ∈ value) : ∃ name, name ∈ value' := by
  induction strs generalizing value with
  | nil =>
    obtain rfl := Except.ok.inj h
    exact hne.resolve_left fun hno => hno rfl
  | cons entry rest ih =>
    rw [parseEntries] at h
    split at h
    · next name paramString hsplit =>
        obtain ⟨params, hparams, hrest⟩ := Parsed.bind_value_eq_ok.mp h
        exact ih hrest (Or.inr ⟨name, by simp⟩)
    · cases h

/-- A produced map has an entry, its names have no separators, and its parameters were read. -/
theorem Produced.spec {value : StringMap P} (h : M.Produced value) (Q : P → Prop)
    (hQ : ∀ s params, (M.parseParams s).value = .ok params → Q params) :
    value.entries ≠ [] ∧ ∀ name params, value.lookup name = some params →
      ',' ∉ name ∧ '=' ∉ name ∧ Q params := by
  obtain ⟨arg, value', hparse, hsame⟩ := h
  have hmem := mem_of_parseEntries Q hparse (fun _ => notMem_of_mem_splitOn) hQ (by simp)
  obtain ⟨name, hname⟩ := exists_of_parseEntries hparse (Or.inl (List.splitOn_ne_nil _ _))
  refine ⟨fun hnil => ?_, fun name params hlookup => hmem name params (by rwa [← hsame])⟩
  have hnone : value.lookup name = none := by
    rw [AList.lookup_eq_none, AList.mem_keys, AList.keys, hnil]
    simp
  rw [hsame, AList.lookup_eq_none] at hnone
  exact hnone hname

/-- The parameters of an entry are printed after its name, and without the separators. -/
structure PrintsEntry (M : MapParser P) (name : Str) (params : P) (text : Str) : Prop where
  eq : M.printEntry name params = name ++ '=' :: text
  name_comma : ',' ∉ name
  name_equals : '=' ∉ name
  comma : ',' ∉ text
  equals : '=' ∉ text

theorem PrintsEntry.splitOn {name text : Str} {params : P} (h : M.PrintsEntry name params text) :
    (M.printEntry name params).splitOn '=' = [name, text] := by
  rw [h.eq, List.splitOn_append_cons_self_of_not_mem h.name_equals,
    List.splitOn_eq_singleton h.equals]

section Print

variable {print : P → Str}

/-- What accepted printed entries leave: the parameters that were read under their names, and
nothing else. -/
theorem lookup_of_parseEntries {entries : List ((_ : Str) × P)}
    (hnodup : (entries.map Sigma.fst).Nodup)
    (hentries : ∀ entry ∈ entries, M.PrintsEntry entry.1 entry.2 (print entry.2))
    (h : (M.parseEntries (entries.map fun entry => M.printEntry entry.1 entry.2) value).value =
      .ok value') :
    (∀ entry ∈ entries, ∃ params, (M.parseParams (print entry.2)).value = .ok params ∧
        value'.lookup entry.1 = some params) ∧
      ∀ name ∉ entries.map Sigma.fst, value'.lookup name = value.lookup name := by
  induction entries generalizing value with
  | nil =>
    obtain rfl := Except.ok.inj h
    exact ⟨fun _ hmem => absurd hmem List.not_mem_nil, fun _ _ => rfl⟩
  | cons entry rest ih =>
    obtain ⟨name, params⟩ := entry
    obtain ⟨hnew, hnodup⟩ := List.nodup_cons.mp hnodup
    rw [List.map_cons, parseEntries, (hentries _ List.mem_cons_self).splitOn] at h
    obtain ⟨q, hq, hrest⟩ := Parsed.bind_value_eq_ok.mp h
    obtain ⟨hread, hother⟩ := ih hnodup
      (fun entry hentry => hentries entry (List.mem_cons_of_mem _ hentry)) hrest
    refine ⟨List.forall_mem_cons.mpr ⟨⟨q, hq, ?_⟩, hread⟩, fun name' hname' => ?_⟩
    · rw [hother name hnew, AList.lookup_insert]
    · rw [List.map_cons, List.mem_cons, not_or] at hname'
      rw [hother name' hname'.2, AList.lookup_insert_ne hname'.1]

/-- Printed entries are accepted if the parameters of each are. -/
theorem exists_parseEntries {entries : List ((_ : Str) × P)} (value : StringMap P)
    (hentries : ∀ entry ∈ entries, M.PrintsEntry entry.1 entry.2 (print entry.2))
    (hread : ∀ entry ∈ entries, ∃ params, (M.parseParams (print entry.2)).value = .ok params) :
    ∃ value', (M.parseEntries (entries.map fun entry => M.printEntry entry.1 entry.2) value).value =
      .ok value' := by
  induction entries generalizing value with
  | nil => exact ⟨value, rfl⟩
  | cons entry rest ih =>
    obtain ⟨name, params⟩ := entry
    obtain ⟨q, hq⟩ := hread _ List.mem_cons_self
    obtain ⟨value', hrest⟩ := ih (value.insert name q)
      (fun entry hentry => hentries entry (List.mem_cons_of_mem _ hentry))
      (fun entry hentry => hread entry (List.mem_cons_of_mem _ hentry))
    rw [List.map_cons, parseEntries, (hentries _ List.mem_cons_self).splitOn]
    exact ⟨value', Parsed.bind_value_eq_ok.mpr ⟨q, hq, hrest⟩⟩

/-- **Printed maps.**  A map with an entry and without separators is read back exactly when the
parameters of every entry are. -/
theorem roundTrips_iff {value : StringMap P} (hne : value.entries ≠ [])
    (hprint : ∀ name params, value.lookup name = some params →
      M.PrintsEntry name params (print params)) :
    M.RoundTrips value ↔ ∀ name params, value.lookup name = some params →
      (M.parseParams (print params)).value = .ok params := by
  have hlookup : ∀ entry ∈ value.entries, value.lookup entry.1 = some entry.2 := fun entry hentry =>
    AList.mem_lookup_iff.mpr hentry
  have hmem : ∀ name params, value.lookup name = some params →
      (⟨name, params⟩ : (_ : Str) × P) ∈ value.entries := fun name params h =>
    AList.mem_lookup_iff.mp h
  have hnodup : (value.entries.map Sigma.fst).Nodup := value.nodupKeys
  have hentries : ∀ entry ∈ value.entries, M.PrintsEntry entry.1 entry.2 (print entry.2) :=
    fun entry hentry => hprint _ _ (hlookup entry hentry)
  have hsplit : (M.toString value).splitOn ',' =
      value.entries.map fun entry => M.printEntry entry.1 entry.2 := by
    rw [toString, printEntries_eq]
    refine List.splitOn_intercalate ',' (fun part hpart => ?_) (by simpa using hne)
    obtain ⟨entry, hentry, rfl⟩ := List.mem_map.mp hpart
    have h := hentries entry hentry
    simp [h.eq, h.name_comma, h.comma]
  unfold RoundTrips parse
  rw [hsplit]
  constructor
  · rintro ⟨value', hrun, hsame⟩ name params hparams
    obtain ⟨q, hq, hstored⟩ :=
      (lookup_of_parseEntries hnodup hentries hrun).1 _ (hmem name params hparams)
    rw [hsame, hparams] at hstored
    rwa [← Option.some.inj hstored] at hq
  · intro hread
    obtain ⟨value', hrun⟩ := exists_parseEntries ∅ hentries fun entry hentry =>
      ⟨_, hread _ _ (hlookup entry hentry)⟩
    obtain ⟨hstored, hother⟩ := lookup_of_parseEntries hnodup hentries hrun
    refine ⟨value', hrun, fun name => ?_⟩
    cases hparams : value.lookup name with
    | none =>
      rw [hother name fun hname => ?_, AList.lookup_empty]
      obtain ⟨entry, hentry, rfl⟩ := List.mem_map.mp hname
      rw [hlookup entry hentry] at hparams
      cases hparams
    | some params =>
      obtain ⟨q, hq, hlast⟩ := hstored _ (hmem name params hparams)
      rw [hlast, ← Except.ok.inj (hq.symm.trans (hread name params hparams))]

end Print

end MapParser

end OverrideString
