import BazziteTower.Lib.Json

/-!
# Decoding with an object hook

`json.loads(data, object_pairs_hook=hook)`: the members of every object are collected
in their order, equal keys included, and the hook makes the value of them.  The decoder
without a hook is the one whose hook assigns the members one after the other.

## Main definitions

* `Json.loadsHook` — decoding with a hook.
* `Json.lastWins` — the hook that assigns.
* `Json.uniqueKeys`, `Json.Distinct` — the hook that refuses equal keys, and what it leaves.
* `Json.keysOf` — the keys of a document, as often as they stand there.

## Main results

* `loadsHook_keeps` — what scalars have and arrays and the hook keep, a document has.
* `parse_eq_read` — the decoder is the one with the assigning hook.
-/

namespace Json

section Hook
variable (hook : List (Text × Json) → Except Error Json)

mutual

/-- One value; `depth` is how much deeper containers may nest. -/
def readValue : ℕ → ℕ → List Char → Except Error (Json × List Char)
  | 0, _, _ => .error .value
  | _ + 1, _, [] => .error .value
  | fuel + 1, depth, c :: cs =>
    if c = '"' then do
      let (s, cs) ← parseString fuel cs
      return (.str s, cs)
    else if c = '{' then
      if depth = 0 then .error .recursion
      else if (skipSpace cs).head? = some '}' then do
        return (← hook [], (skipSpace cs).tail)
      else do
        let (ms, cs) ← readMembers fuel (depth - 1) (skipSpace cs)
        return (← hook ms, cs)
    else if c = '[' then
      if depth = 0 then .error .recursion
      else if (skipSpace cs).head? = some ']' then .ok (.arr [], (skipSpace cs).tail)
      else do
        let (xs, cs) ← readItems fuel (depth - 1) (skipSpace cs)
        return (.arr xs, cs)
    else
      match parseConstant (c :: cs) with
      | some r => .ok r
      | none => parseNumber (c :: cs)

/-- The members of an object, from a key on. -/
def readMembers : ℕ → ℕ → List Char → Except Error (List (Text × Json) × List Char)
  | 0, _, _ => .error .value
  | _ + 1, _, [] => .error .value
  | fuel + 1, depth, c :: cs =>
    if c = '"' then do
      let (key, cs) ← parseString fuel cs
      if (skipSpace cs).head? = some ':' then
        let (v, cs) ← readValue fuel depth (skipSpace (skipSpace cs).tail)
        if (skipSpace cs).head? = some '}' then
          return ([(key, v)], (skipSpace cs).tail)
        else if (skipSpace cs).head? = some ',' then
          let (ms, cs) ← readMembers fuel depth (skipSpace (skipSpace cs).tail)
          return ((key, v) :: ms, cs)
        else .error .value
      else .error .value
    else .error .value

/-- The items of an array, from the first one on. -/
def readItems : ℕ → ℕ → List Char → Except Error (List Json × List Char)
  | 0, _, _ => .error .value
  | fuel + 1, depth, cs => do
    let (x, cs) ← readValue fuel depth cs
    if (skipSpace cs).head? = some ']' then
      return ([x], (skipSpace cs).tail)
    else if (skipSpace cs).head? = some ',' then
      let (xs, cs) ← readItems fuel depth (skipSpace (skipSpace cs).tail)
      return (x :: xs, cs)
    else .error .value

end

/-- A document: one value with space around it. -/
def readDocument (cs : List Char) : Except Error Json := do
  let (v, rest) ← readValue hook (cs.length + 1) recursionLimit (skipSpace cs)
  if skipSpace rest = [] then return v else .error .value

/-- `json.loads` on a byte string, with a hook. -/
def loadsHook (data : Bytes) : Except Error Json :=
  match decodeDetected data with
  | none => .error .value
  | some cs => readDocument hook cs

variable {hook}

/-- Whether a value is neither an array nor an object. -/
def isScalar : Json → Bool
  | .arr _ | .obj _ => false
  | _ => true

theorem isScalar_of_parseConstant {cs rest : List Char} {v : Json}
    (h : parseConstant cs = some (v, rest)) : v.isScalar := by
  obtain ⟨p, hp, h⟩ := Option.map_eq_some_iff.mp h
  have hmem := List.mem_of_find?_eq_some hp
  have hall : ∀ p ∈ constants, p.2.isScalar := by decide
  exact (Prod.mk.inj h).1 ▸ hall p hmem

theorem isScalar_of_parseNumber {cs rest : List Char} {v : Json}
    (h : parseNumber cs = .ok (v, rest)) : v.isScalar := by
  unfold parseNumber at h
  dsimp only at h
  split_ifs at h <;> obtain ⟨rfl, -⟩ := Prod.mk.inj (Except.ok.inj h) <;> rfl

section Keeps
variable {P : Json → Prop} (hscalar : ∀ v : Json, v.isScalar → P v)
  (harr : ∀ xs : List Json, (∀ x ∈ xs, P x) → P (.arr xs))
  (hobj : ∀ items v, hook items = .ok v → (∀ m ∈ items, P m.2) → P v)
include hscalar harr hobj

/-- A property of scalars that arrays and the hook keep holds of all that is read. -/
theorem read_keeps (fuel : ℕ) :
    (∀ depth cs v rest, readValue hook fuel depth cs = .ok (v, rest) → P v) ∧
    (∀ depth cs ms rest, readMembers hook fuel depth cs = .ok (ms, rest) → ∀ m ∈ ms, P m.2) ∧
    ∀ depth cs xs rest, readItems hook fuel depth cs = .ok (xs, rest) → ∀ x ∈ xs, P x := by
  induction fuel with
  | zero => simp [readValue, readMembers, readItems]
  | succ fuel ih =>
    obtain ⟨ihValue, ihMembers, ihItems⟩ := ih
    refine ⟨fun depth cs v rest h => ?_, fun depth cs ms rest h => ?_, fun depth cs xs rest h => ?_⟩
    · cases cs with
      | nil => simp [readValue] at h
      | cons c cs =>
        rw [readValue] at h
        split_ifs at h
        · obtain ⟨_, -, h⟩ := Except.bind_eq_ok.mp h
          obtain ⟨rfl, -⟩ := Prod.mk.inj (Except.ok.inj h)
          exact hscalar _ rfl
        · obtain ⟨w, hw, h⟩ := Except.bind_eq_ok.mp h
          obtain ⟨rfl, -⟩ := Prod.mk.inj (Except.ok.inj h)
          exact hobj _ _ hw (by simp)
        · obtain ⟨p, hp, h⟩ := Except.bind_eq_ok.mp h
          obtain ⟨w, hw, h⟩ := Except.bind_eq_ok.mp h
          obtain ⟨rfl, -⟩ := Prod.mk.inj (Except.ok.inj h)
          exact hobj _ _ hw (ihMembers _ _ _ _ hp)
        · obtain ⟨rfl, -⟩ := Prod.mk.inj (Except.ok.inj h)
          exact harr _ (by simp)
        · obtain ⟨p, hp, h⟩ := Except.bind_eq_ok.mp h
          obtain ⟨rfl, -⟩ := Prod.mk.inj (Except.ok.inj h)
          exact harr _ (ihItems _ _ _ _ hp)
        · split at h
          · rename_i hc
            exact hscalar _ (isScalar_of_parseConstant (hc.trans (congrArg some (Except.ok.inj h))))
          · exact hscalar _ (isScalar_of_parseNumber h)
    · cases cs with
      | nil => simp [readMembers] at h
      | cons c cs =>
        rw [readMembers] at h
        split_ifs at h
        obtain ⟨p, -, h⟩ := Except.bind_eq_ok.mp h
        dsimp only at h
        split_ifs at h
        obtain ⟨q, hq, h⟩ := Except.bind_eq_ok.mp h
        have hvalue := ihValue _ _ _ _ hq
        split_ifs at h
        · obtain ⟨rfl, -⟩ := Prod.mk.inj (Except.ok.inj h)
          simpa using hvalue
        · obtain ⟨r, hr, h⟩ := Except.bind_eq_ok.mp h
          obtain ⟨rfl, -⟩ := Prod.mk.inj (Except.ok.inj h)
          exact List.forall_mem_cons.mpr ⟨hvalue, ihMembers _ _ _ _ hr⟩
    · rw [readItems] at h
      obtain ⟨q, hq, h⟩ := Except.bind_eq_ok.mp h
      have hvalue := ihValue _ _ _ _ hq
      dsimp only at h
      split_ifs at h
      · obtain ⟨rfl, -⟩ := Prod.mk.inj (Except.ok.inj h)
        simpa using hvalue
      · obtain ⟨r, hr, h⟩ := Except.bind_eq_ok.mp h
        obtain ⟨rfl, -⟩ := Prod.mk.inj (Except.ok.inj h)
        exact List.forall_mem_cons.mpr ⟨hvalue, ihItems _ _ _ _ hr⟩

theorem loadsHook_keeps {data : Bytes} {v : Json} (h : loadsHook hook data = .ok v) : P v := by
  rw [loadsHook] at h
  split at h
  · cases h
  · obtain ⟨⟨w, rest⟩, hw, h⟩ := Except.bind_eq_ok.mp h
    dsimp only at h
    split_ifs at h
    obtain rfl := Except.ok.inj h
    exact (read_keeps hscalar harr hobj _).1 _ _ _ _ hw

end Keeps

/-! ## Refusing equal keys -/

/-- The hook that refuses equal keys. -/
def uniqueKeys (items : List (Text × Json)) : Except Error Json :=
  if (items.map Prod.fst).Nodup then .ok (.obj items) else .error .value

/-- No object in a value has equal keys. -/
inductive Distinct : Json → Prop
  | scalar {v : Json} (h : v.isScalar) : Distinct v
  | arr {xs : List Json} (h : ∀ x ∈ xs, Distinct x) : Distinct (.arr xs)
  | obj {ms : List (Text × Json)} (nodup : (ms.map Prod.fst).Nodup) (h : ∀ m ∈ ms, Distinct m.2) :
      Distinct (.obj ms)

theorem distinct_of_loadsHook {data : Bytes} {v : Json} (h : loadsHook uniqueKeys data = .ok v) :
    Distinct v := by
  refine loadsHook_keeps (fun _ => .scalar) (fun _ => .arr) (fun items v hv hitems => ?_) h
  unfold uniqueKeys at hv
  split at hv
  · obtain rfl := Except.ok.inj hv
    exact .obj ‹_› hitems
  · cases hv

end Hook

/-! ## Keeping equal keys -/

/-- The hook that keeps the members as they stand there. -/
def allMembers (items : List (Text × Json)) : Except Error Json := .ok (.obj items)

/-- The decoded keys of the members of a document, in their order and as often as they
stand there. -/
def keysOf (data : Bytes) : List Text :=
  match loadsHook allMembers data with
  | .ok (.obj items) => items.map Prod.fst
  | _ => []

/-! ## Assigning the members -/

/-- The members, assigned one after the other. -/
def assign (acc items : List (Text × Json)) : List (Text × Json) :=
  items.foldl (fun ms m => insert m.1 m.2 ms) acc

/-- The hook that the last of equal keys passes. -/
def lastWins (items : List (Text × Json)) : Except Error Json := .ok (.obj (assign [] items))

/-- **The decoder without a hook** assigns the members as they come. -/
theorem parse_eq_read (fuel : ℕ) :
    (∀ depth cs, parseValue fuel depth cs = readValue lastWins fuel depth cs) ∧
    (∀ depth acc cs, parseMembers fuel depth acc cs =
      (readMembers lastWins fuel depth cs).map fun p => (assign acc p.1, p.2)) ∧
    ∀ depth cs, parseItems fuel depth cs = readItems lastWins fuel depth cs := by
  induction fuel with
  | zero => simp [parseValue, parseMembers, parseItems, readValue, readMembers, readItems, Except.map]
  | succ fuel ih =>
    obtain ⟨ihValue, ihMembers, ihItems⟩ := ih
    refine ⟨fun depth cs => ?_, fun depth acc cs => ?_, fun depth cs => ?_⟩
    · cases cs with
      | nil => rfl
      | cons c cs =>
        simp only [parseValue, readValue, ihMembers, ihItems]
        cases readMembers lastWins fuel (depth - 1) (skipSpace cs) <;> rfl
    · cases cs with
      | nil => rfl
      | cons c cs =>
        simp only [parseMembers, readMembers, ihValue, ihMembers]
        split_ifs with hquote
        · cases parseString fuel cs with
          | error e => rfl
          | ok p =>
            simp only [bind, Except.bind]
            split_ifs with hcolon
            · cases readValue lastWins fuel depth (skipSpace (skipSpace p.2).tail) with
              | error e => rfl
              | ok q =>
                dsimp only
                split_ifs with hclose hcomma
                · rfl
                · cases readMembers lastWins fuel depth (skipSpace (skipSpace q.2).tail) <;> rfl
                · rfl
            · rfl
        · rfl
    · simp only [parseItems, readItems, ihValue, ihItems]

theorem parse_eq_readDocument (cs : List Char) : parse cs = readDocument lastWins cs := by
  rw [parse, readDocument, (parse_eq_read _).1]

theorem loads_eq_loadsHook (data : Bytes) : loads data = loadsHook lastWins data := by
  rw [loads, loadsHook]
  cases decodeDetected data with
  | none => rfl
  | some cs => exact parse_eq_readDocument cs

end Json
