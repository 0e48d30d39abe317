import BlockScript.Body

/-
  This file defines block kinds, the registry that finds them
  by keyword, and how a registry is built.

  Key definitions include:
    * `BlockKind`
    * `KindTable`
    * `Registry`
    * `Registry.lookup`
    * `Registry.kinds`
    * `DuplicatePolicy`
    * `RegistryError`
    * `Registry.Builder`
    * `Registry.Builder.registerInPlace`
    * `Registry.Builder.register`

  Key theorems include:
    * `KindTable.get?_insert`
-/

namespace BlockScript

------------------------------------------------------------
-- Block Kinds
------------------------------------------------------------

/-
  A kind of block: its keyword, whether a name follows the
  keyword, and how the body is read.
-/
structure BlockKind where
  keyword : String
  named : Bool
  body : Body

------------------------------------------------------------
-- Tables of Kinds
------------------------------------------------------------

/-
  Kinds by keyword. No keyword has two of them. The order of
  the entries says nothing.
-/
structure KindTable where
  entries : List (String × BlockKind)
  distinct : (entries.map Prod.fst).Nodup

namespace KindTable

/- The table with no kinds. -/
def empty : KindTable :=
  { entries := [], distinct := .nil }

/- The keywords that have a kind. -/
def keywords (m : KindTable) : List String :=
  m.entries.map Prod.fst

/- All kinds. -/
def kinds (m : KindTable) : List BlockKind :=
  m.entries.map Prod.snd

/- The kind under a keyword. -/
def get?
    (m : KindTable)
    (keyword : String) : Option BlockKind :=
  m.entries.lookup keyword

/- Whether there is a kind under a keyword. -/
def contains
    (m : KindTable)
    (keyword : String) : Bool :=
  (m.get? keyword).isSome

/- The number of keywords that have a kind. -/
def size (m : KindTable) : Nat :=
  m.entries.length

/- Put a kind under a keyword, in place of any other. -/
def insert
    (m : KindTable)
    (keyword : String)
    (kind : BlockKind) : KindTable :=
  { entries :=
      (keyword, kind) :: m.entries.filter (·.1 != keyword),
    distinct := by
      rw [List.map_cons, List.nodup_cons]
      constructor
      · intro hThere
        rcases List.mem_map.mp hThere with ⟨e, he, hSame⟩
        have hOther := (List.mem_filter.mp he).2
        rw [hSame] at hOther
        simp at hOther
      · exact m.distinct.sublist (List.filter_sublist.map _) }

/- Change all kinds, and leave them under their keywords. -/
def map
    (m : KindTable)
    (f : BlockKind → BlockKind) : KindTable :=
  { entries := m.entries.map fun (keyword, kind) => (keyword, f kind),
    distinct := by
      rw [List.map_map]
      exact m.distinct }

@[simp]
theorem get?_empty
    (keyword : String) :
    empty.get? keyword = none :=
  rfl

/- Without one keyword, the others find what they did. -/
theorem lookup_filter
    {keyword other : String}
    (entries : List (String × BlockKind))
    (hOther : keyword ≠ other) :
    (entries.filter (·.1 != keyword)).lookup other
      = entries.lookup other := by
  induction entries with
  | nil => rfl
  | cons e es ih =>
      rw [List.filter_cons, List.lookup_cons]
      by_cases hHere : e.1 = keyword
      · have hPast : (other == e.1) = false := by
          simpa [hHere] using Ne.symm hOther
        rw [hPast, if_neg (by simp [hHere])]
        exact ih
      · rw [if_pos (by simpa using hHere), List.lookup_cons, ih]

/- A kind that was put under a keyword is found there. -/
theorem get?_insert
    (m : KindTable)
    (keyword : String)
    (kind : BlockKind)
    (other : String) :
    (m.insert keyword kind).get? other
      = if keyword = other then some kind else m.get? other := by
  simp only [get?, insert, List.lookup_cons]
  by_cases hSame : keyword = other
  · simp [hSame]
  · have hPast : (other == keyword) = false := by
      simpa using Ne.symm hSame
    rw [hPast, if_neg hSame]
    exact lookup_filter m.entries hSame

theorem get?_map
    (m : KindTable)
    (f : BlockKind → BlockKind)
    (keyword : String) :
    (m.map f).get? keyword = (m.get? keyword).map f := by
  simp only [get?, map]
  induction m.entries with
  | nil => rfl
  | cons e es ih =>
      rw [List.map_cons, List.lookup_cons, List.lookup_cons, ih]
      split <;> rfl

theorem nodup_keywords
    (m : KindTable) :
    m.keywords.Nodup :=
  m.distinct

@[simp]
theorem length_keywords
    (m : KindTable) :
    m.keywords.length = m.size :=
  List.length_map _

/- A keyword has a kind if it is one of the keywords. -/
theorem contains_iff
    {m : KindTable}
    {keyword : String} :
    m.contains keyword = true ↔ keyword ∈ m.keywords := by
  simp only [contains, get?, List.lookup_isSome_iff, keywords,
    List.mem_map, beq_iff_eq]
  exact ⟨fun ⟨e, he, h⟩ => ⟨e, he, h.symm⟩,
    fun ⟨e, he, h⟩ => ⟨e, he, h.symm⟩⟩

/- What is found is one of the kinds. -/
theorem mem_kinds_of_get?
    {m : KindTable}
    {keyword : String}
    {kind : BlockKind}
    (hFound : m.get? keyword = some kind) :
    kind ∈ m.kinds := by
  rcases List.lookup_eq_some_iff.mp hFound with
    ⟨before, after, hEntries, -⟩
  have hThere : (keyword, kind) ∈ m.entries := by
    rw [hEntries]
    exact List.mem_append_right _ List.mem_cons_self
  exact List.mem_map_of_mem hThere

end KindTable

------------------------------------------------------------
-- Registries
------------------------------------------------------------

/-
  The kinds of blocks that a script may have: by keyword, the
  order in which keywords were first registered, and the
  keywords registered again, once for each time.
-/
structure Registry where
  table : KindTable
  order : List String
  duplicates : List String

namespace Registry

/- The registry with no kinds. -/
def empty : Registry :=
  { table := .empty, order := [], duplicates := [] }

/- The kind with a keyword. -/
def lookup
    (r : Registry)
    (keyword : String) : Option BlockKind :=
  r.table.get? keyword

/- Whether a keyword has a kind. -/
def contains
    (r : Registry)
    (keyword : String) : Bool :=
  (r.lookup keyword).isSome

/- The number of keywords that have a kind. -/
def size (r : Registry) : Nat :=
  r.table.size

/- Whether no keyword has a kind. -/
def isEmpty (r : Registry) : Bool :=
  r.table.entries.isEmpty

/- The kinds, in the order in which keywords came first. -/
def kinds (r : Registry) : List BlockKind :=
  r.order.filterMap r.lookup

/- One warning for each keyword registered again. -/
def duplicateDiagnostics (r : Registry) : List Diagnostic :=
  r.duplicates.map fun keyword =>
    .ofProblem (.repeatedKeyword keyword)

/- Add a kind with a new keyword. -/
def add
    (r : Registry)
    (kind : BlockKind) : Registry :=
  { r with
    table := r.table.insert kind.keyword kind,
    order := r.order ++ [kind.keyword] }

/- Put a kind in the place of the one with its keyword. -/
def replace
    (r : Registry)
    (kind : BlockKind) : Registry :=
  { r with
    table := r.table.insert kind.keyword kind,
    duplicates := r.duplicates ++ [kind.keyword] }

end Registry

------------------------------------------------------------
-- Registration
------------------------------------------------------------

/- What to do with a keyword that is registered again. -/
inductive DuplicatePolicy where
  | replace
  | reject
deriving DecidableEq, Repr

/- Why a kind is not registered. -/
inductive RegistryError where
  | duplicateRegistration (keyword : String)
  | emptyKeyword
  | invalidKeyword (keyword : String)
deriving DecidableEq, Repr

/- The wording of a registration error. -/
def RegistryError.message : RegistryError → String
  | duplicateRegistration keyword =>
      "block keyword '" ++ keyword ++ "' is already registered"
  | emptyKeyword => "block keyword must not be empty"
  | invalidKeyword keyword =>
      "block keyword '" ++ keyword
        ++ "' can never match a token"

/- A registry under construction. -/
structure Registry.Builder where
  registry : Registry := Registry.empty
  policy : DuplicatePolicy := .replace

namespace Registry.Builder

/- Change what happens to duplicates from now on. -/
def withPolicy
    (b : Builder)
    (policy : DuplicatePolicy) : Builder :=
  { b with policy }

/-
  Register a kind under its keyword: what the call returns,
  and the builder that it leaves behind. A keyword that is
  empty or holds a character that ends words is refused.
-/
def registerInPlace
    (b : Builder)
    (kind : BlockKind) : Except RegistryError Unit × Builder :=
  let keyword := kind.keyword
  if keyword.toList.isEmpty then
    (.error .emptyKeyword, b)
  else if keyword.toList.any isDelimiter then
    (.error (.invalidKeyword keyword), b)
  else if b.registry.contains keyword then
    match b.policy with
    | .reject => (.error (.duplicateRegistration keyword), b)
    | .replace =>
        (.ok (), { b with registry := b.registry.replace kind })
  else
    (.ok (), { b with registry := b.registry.add kind })

/- Register a kind and hand the builder on. -/
def register
    (b : Builder)
    (kind : BlockKind) : Except RegistryError Builder :=
  match b.registerInPlace kind with
  | (.ok (), b) => .ok b
  | (.error e, _) => .error e

/- Register several kinds in order, up to the first error. -/
def registerAll
    (b : Builder)
    (kinds : List BlockKind) : Except RegistryError Builder :=
  kinds.foldlM register b

/- The registry that was built. -/
def build (b : Builder) : Registry :=
  b.registry

end Registry.Builder
end BlockScript
