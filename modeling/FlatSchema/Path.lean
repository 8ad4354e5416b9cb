import FlatSchema.Text.Utf8

/-!
Paths as they are written, with slashes. Nothing is looked up and nothing is normalised: joining two
paths only puts a slash between them where one is missing. A path is a row of bytes, whose names
need not be UTF-8; a text makes a path of its bytes, and a path is shown as the text of its bytes.

Empty components and components that are a single point do not count, except for a point at the very
start of a relative path. So the file name of `a/b.fbs/.` is `b.fbs`, and its parent is `a`.

        path        parent    file name
        a/b.fbs     a         b.fbs
        ./b.fbs     .         b.fbs
        /b.fbs      /         b.fbs
        b.fbs       (empty)   b.fbs
        a/..        a         none
        /, (empty)  none      none
-/

namespace FlatSchema

/-- A path as it is written. -/
structure Path where
  bytes : Bytes
deriving DecidableEq, Inhabited

namespace Path

/-- What stands between names. -/
@[match_pattern] abbrev slash : UInt8 := 0x2f

/-- What stands before an extension. -/
@[match_pattern] abbrev point : UInt8 := 0x2e

def ofString (s : String) : Path := ⟨bytesOf s⟩

def toString (p : Path) : String := shownOf p.bytes

def isEmpty (p : Path) : Bool := p.bytes.isEmpty

def isAbsolute (p : Path) : Bool := p.bytes.head? == some slash

/-- One path below another. An absolute path stands for itself. -/
def join (p q : Path) : Path :=
  if q.isAbsolute then q
  else if p.bytes.isEmpty || p.bytes.getLast? = some slash then ⟨p.bytes ++ q.bytes⟩
  else ⟨p.bytes ++ slash :: q.bytes⟩

/-- A path below another, by name. -/
def child (p : Path) (name : String) : Path := p.join (.ofString name)

/-- What a path starts with before its first component: a slash, or a point that counts. -/
def anchor : Bytes → Bytes
  | slash :: _ => [slash]
  | [point] => [point]
  | point :: slash :: _ => [point]
  | _ => []

/-- A path backwards, without the empty and single-point components that come first this way. -/
def trimmed : Bytes → Bytes
  | slash :: rest => trimmed rest
  | [point] => []
  | point :: slash :: rest => trimmed rest
  | backward => backward

/-- The components of a path backwards. -/
def backward (p : Path) : Bytes := trimmed (p.bytes.drop (anchor p.bytes).length).reverse

/-- The path without its last component; none of a root and of an empty path. -/
def parent? (p : Path) : Option Path :=
  let start := anchor p.bytes
  match p.backward with
  | [] => if start = [point] then some ⟨[]⟩ else none
  | back => some ⟨start ++ (trimmed (back.dropWhile (· != slash))).reverse⟩

/-- The last component, if it names something. -/
def fileName? (p : Path) : Option Bytes :=
  let name := (p.backward.takeWhile (· != slash)).reverse
  if name.isEmpty || name = [point, point] then none else some name

/-- A file name split at its last point; no extension if there is no point but at the start. -/
def splitName (name : Bytes) : Bytes × Option Bytes :=
  let ext := (name.reverse.takeWhile (· != point)).reverse
  let stem := name.take (name.length - ext.length - 1)
  if stem.isEmpty then (name, none) else (stem, some ext)

/-- The file name without its extension. -/
def stem? (p : Path) : Option Bytes := p.fileName?.map fun name => (splitName name).1

/-- What stands behind the last point of the file name. -/
def extension? (p : Path) : Option Bytes := p.fileName?.bind fun name => (splitName name).2

/-! ### Parents are shorter -/

theorem length_trimmed_le (s : Bytes) : (trimmed s).length ≤ s.length := by
  fun_induction trimmed s with
  | case1 rest ih => exact Nat.le_succ_of_le ih
  | case2 => exact Nat.zero_le _
  | case3 rest ih => exact Nat.le_succ_of_le (Nat.le_succ_of_le ih)
  | case4 => exact Nat.le_refl _

theorem head?_trimmed_ne (s : Bytes) : (trimmed s).head? ≠ some slash := by
  fun_induction trimmed s with
  | case1 rest ih => exact ih
  | case2 => simp
  | case3 rest ih => exact ih
  | case4 s h _ _ =>
    intro hs
    cases s with
    | nil => simp at hs
    | cons c r =>
      simp only [List.head?_cons, Option.some.injEq] at hs
      exact h r (congrArg (· :: r) hs)

theorem length_anchor_le (s : Bytes) : (anchor s).length ≤ s.length := by
  unfold anchor
  split <;> simp

/-- The parent of a path is shorter than the path. -/
theorem length_parent_lt {p q : Path} (h : p.parent? = some q) :
    q.bytes.length < p.bytes.length := by
  have hb : p.backward.length + (anchor p.bytes).length ≤ p.bytes.length := by
    have h₁ := length_trimmed_le (p.bytes.drop (anchor p.bytes).length).reverse
    have h₂ := length_anchor_le p.bytes
    simp only [List.length_reverse, List.length_drop] at h₁
    simp only [backward]
    omega
  simp only [parent?] at h
  split at h
  · next hn =>
    split at h
    · next ha =>
      cases h
      simp only [hn, ha, List.length_nil, List.length_singleton] at hb
      simp only [List.length_nil]
      omega
    · cases h
  · next hn =>
    cases h
    have hne : p.backward.head? ≠ some slash := head?_trimmed_ne _
    cases hback : p.backward with
    | nil => exact absurd hback hn
    | cons c r =>
      rw [hback] at hne hb
      have hc : c ≠ slash := by simpa using hne
      have h₁ := length_trimmed_le ((c :: r).dropWhile (· != slash))
      have h₂ : ((c :: r).dropWhile (· != slash)).length ≤ r.length := by
        simpa [List.dropWhile_cons, hc] using (List.dropWhile_suffix _).length_le
      simp only [List.length_append, List.length_reverse]
      simp only [List.length_cons] at hb
      omega

end Path

end FlatSchema
