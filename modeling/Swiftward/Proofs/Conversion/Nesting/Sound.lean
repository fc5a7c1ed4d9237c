import Mathlib.Data.List.TakeWhile
import Swiftward.Proofs.Conversion.Nesting.Tree
import Swiftward.Proofs.Text.Reading

/-!
# Statements that come out right

What the scan for the end of a body makes of the lines of a statement depends on the number of
braces that are due (`Item.nest`). Behind a sound statement it is what the statement asks for
(`Tree.nest_of_isSound`), and every scan in it ends (`Tree.settled_of_isSound`).
-/

namespace Swiftward

/-! ### What the scan makes of the lines -/

/-- The brace that is made for a header closes. -/
lemma isClosing_indent {indent : Text} (h : ∀ c ∈ indent, isSpace c = true) :
    isClosing (indent ++ ['\x7d']) = true := by
  have hslashless : Slashless (indent ++ ['\x7d']) :=
    (Slashless.of_class h (by decide)).append (by decide)
  have hbrace : ∀ c ∈ ['\x7d'].head?, isSpace c = false := by
    rintro _ ⟨⟩
    decide
  rw [isClosing, hslashless.splitComment, trim, trimStart_append h hbrace]
  decide

lemma Item.isClosing_of_header {item : Item} {closing : Text} (h : item.kind = .header closing) :
    isClosing closing = true := by
  obtain ⟨c, comment, hconstruct, -, -, rfl, -⟩ := (h ▸ item.reads).conditional
  rw [Conditional.indent_eq hconstruct.parse?_of_conditional]
  apply isClosing_indent
  intro a ha
  exact List.mem_takeWhile_imp ha

/-- The lines of Swift for a list of lines, when a number of closing braces is due behind the next
line that ends a statement. -/
def Item.nest (pending : Nat) : List Item → List NestLine
  | [] => .replicate pending .closing
  | item :: items =>
    match item.kind with
    | .statement => .of item.swift :: .replicate pending .closing ++ nest 0 items
    | .neutral => .of item.swift :: nest pending items
    | .header _ => .of item.swift :: nest (pending + 1) items

lemma Item.map_flush (items : List Item) {pending : List Text}
    (h : ∀ line ∈ pending, isClosing line = true) :
    (flush pending items).map NestLine.of = nest pending.length items := by
  have hpending {pending : List Text} (h : ∀ line ∈ pending, isClosing line = true) :
      pending.map NestLine.of = .replicate pending.length .closing := by
    rw [← List.map_const']
    apply List.map_congr_left
    intro line hline
    exact NestLine.of_closing (h line hline)
  induction items generalizing pending with
  | nil => exact hpending h
  | cons item items ih =>
    rw [flush, nest]
    cases hkind : item.kind with
    | statement =>
      simp [hpending h, ih (List.forall_mem_nil _)]
    | neutral => simp [ih h]
    | header closing =>
      have hclosing : ∀ line ∈ closing :: pending, isClosing line = true :=
        List.forall_mem_cons.mpr ⟨Item.isClosing_of_header hkind, h⟩
      simp [ih hclosing]

lemma Item.map_flush_nil (items : List Item) :
    (flush [] items).map NestLine.of = nest 0 items :=
  map_flush items (List.forall_mem_nil _)

section Steps

variable {item : Item} {pending : Nat}

lemma Item.IsStatement.nest (h : item.IsStatement) (items : List Item) :
    Item.nest pending (item :: items) =
      .text item.swift :: .replicate pending .closing ++ Item.nest 0 items := by
  rw [Item.nest, h.1, NestLine.of_text h.2]

lemma Item.IsHeader.nest {isIf : Bool} (h : item.IsHeader isIf) (items : List Item) :
    Item.nest pending (item :: items) = .text item.swift :: Item.nest (pending + 1) items := by
  obtain ⟨⟨closing, hkind⟩, htext, -⟩ := h
  rw [Item.nest, hkind, NestLine.of_text htext]

lemma Item.IsOpening.nest (h : item.IsOpening) (items : List Item) :
    Item.nest pending (item :: items) = .text item.swift :: Item.nest pending items := by
  rw [Item.nest, h.1, NestLine.of_text h.2.1]

lemma Item.IsClosing.nest (h : item.IsClosing) (items : List Item) :
    Item.nest pending (item :: items) = .closing :: Item.nest pending items := by
  rw [Item.nest, h.1, NestLine.of_closing h.2]

end Steps

/-! ### Statements that come out right -/

mutual
/-- Hollow conditionals do not stop the scan. -/
lemma Tree.nest_of_isHollow {T : Tree} (h : T.isHollow = true) (pending : Nat)
    (more : List Item) :
    Item.nest pending (T.items ++ more) = T.nest ++ Item.nest pending more := by
  match T with
  | .simple _ | .braceless _ _ | .withElse _ _ _ _ => simp [Tree.isHollow] at h
  | .braced header bodies close =>
    simp [Tree.items, Tree.nest, header.2.nest, bodies.nest_of_isHollow h, close.2.nest]

lemma Trees.nest_of_isHollow {Ts : Trees} (h : Ts.isHollow = true) (pending : Nat)
    (more : List Item) :
    Item.nest pending (Ts.items ++ more) = Ts.nest ++ Item.nest pending more := by
  match Ts with
  | .nil => rfl
  | .cons first others =>
    rw [Trees.isHollow, Bool.and_eq_true] at h
    simp [Trees.items, Trees.nest, first.nest_of_isHollow h.1, others.nest_of_isHollow h.2]
end

/-- Closing braces that are due may change places with one that is there. -/
lemma replicate_closing_append (n : Nat) (lines : List NestLine) :
    .replicate n .closing ++ .closing :: lines = .closing :: .replicate n .closing ++ lines := by
  rw [← List.singleton_append, ← List.append_assoc, ← List.replicate_succ', List.replicate_succ]

mutual
/-- All braces that are due close behind such a statement. -/
lemma Tree.nest_of_isLone {T : Tree} (h : T.isLone = true) (pending : Nat) (more : List Item) :
    Item.nest pending (T.items ++ more) =
      T.nest ++ .replicate pending .closing ++ Item.nest 0 more := by
  match T with
  | .simple line => simp [Tree.items, Tree.nest, line.2.nest]
  | .braceless header body =>
    simp [Tree.items, Tree.nest, header.2.nest, body.nest_of_isLone h, List.replicate_succ]
  | .withElse _ _ _ _ => simp [Tree.isLone] at h
  | .braced header bodies close =>
    simp [Tree.items, Tree.nest, header.2.nest, bodies.nest_of_isLone h, close.2.nest,
      replicate_closing_append]

lemma Trees.nest_of_isLone {Ts : Trees} (h : Ts.isLone = true) (pending : Nat)
    (more : List Item) :
    Item.nest pending (Ts.items ++ more) =
      Ts.nest ++ .replicate pending .closing ++ Item.nest 0 more := by
  match Ts with
  | .nil => simp [Trees.isLone] at h
  | .cons first .nil => simp [Trees.items, Trees.nest, first.nest_of_isLone h]
  | .cons first (.cons second others) =>
    rw [Trees.isLone, Bool.and_eq_true] at h
    · have hmore := Trees.nest_of_isLone h.2 pending more
      have hnest : (Trees.cons first (.cons second others)).nest =
        first.nest ++ (Trees.cons second others).nest := rfl
      rw [Trees.items, List.append_assoc, first.nest_of_isHollow h.1, hmore, hnest]
      simp
    · simp
end

mutual
lemma Tree.nest_of_isSound {T : Tree} (h : T.isSound = true) (more : List Item) :
    Item.nest 0 (T.items ++ more) = T.nest ++ Item.nest 0 more := by
  match T with
  | .simple line => simp [Tree.items, Tree.nest, line.2.nest]
  | .braceless header body =>
    simp [Tree.items, Tree.nest, header.2.nest, body.nest_of_isLone h]
  | .withElse header body otherwise other =>
    rw [Tree.isSound, Bool.and_eq_true] at h
    simp [Tree.items, Tree.nest, header.2.nest, body.nest_of_isLone h.1, otherwise.2.nest,
      other.nest_of_isLone h.2]
  | .braced header bodies close =>
    simp [Tree.items, Tree.nest, header.2.nest, bodies.nest_of_isSound h, close.2.nest]

lemma Trees.nest_of_isSound {Ts : Trees} (h : Ts.isSound = true) (more : List Item) :
    Item.nest 0 (Ts.items ++ more) = Ts.nest ++ Item.nest 0 more := by
  match Ts with
  | .nil => rfl
  | .cons first others =>
    rw [Trees.isSound, Bool.and_eq_true] at h
    simp [Trees.items, Trees.nest, first.nest_of_isSound h.1, others.nest_of_isSound h.2]
end

/-! ### Statements whose scans end -/

lemma Item.not_header {item : Item} (h : item.kind = .neutral ∨ item.kind = .statement)
    (closing : Text) : item.kind ≠ .header closing := by
  rcases h with h | h <;> simp [h]

mutual
lemma Tree.scan?_of_isHollow {T : Tree} (h : T.isHollow = true) {items rest : List Item}
    {out : List Text} (hscan : Item.scan? items = some (out, rest)) :
    ∃ out', Item.scan? (T.items ++ items) = some (out', rest) := by
  match T with
  | .simple _ | .braceless _ _ | .withElse _ _ _ _ => simp [Tree.isHollow] at h
  | .braced header bodies close =>
    obtain ⟨out', hbodies⟩ :=
      bodies.scan?_of_isHollow h (Item.scan?_of_neutral close.2.1 hscan)
    refine ⟨header.1.swift :: out', ?_⟩
    simpa [Tree.items] using Item.scan?_of_neutral header.2.1 hbodies

lemma Trees.scan?_of_isHollow {Ts : Trees} (h : Ts.isHollow = true) {items rest : List Item}
    {out : List Text} (hscan : Item.scan? items = some (out, rest)) :
    ∃ out', Item.scan? (Ts.items ++ items) = some (out', rest) := by
  match Ts with
  | .nil => exact ⟨out, hscan⟩
  | .cons first others =>
    rw [Trees.isHollow, Bool.and_eq_true] at h
    obtain ⟨out', hothers⟩ := others.scan?_of_isHollow h.2 hscan
    rw [Trees.items, List.append_assoc]
    exact first.scan?_of_isHollow h.1 hothers
end

mutual
/-- The scan stops inside such a statement, with only closing braces of it left. -/
lemma Tree.scan?_of_isLone {T : Tree} (h : T.isLone = true) (more : List Item) :
    ∃ out closings, Item.scan? (T.items ++ more) = some (out, closings ++ more) ∧
      ∀ item ∈ closings, item.IsClosing := by
  match T with
  | .simple line => exact ⟨_, [], Item.scan?_of_statement line.2.1, by simp⟩
  | .braceless header body =>
    obtain ⟨⟨closing, hkind⟩, -⟩ := header.2
    obtain ⟨out, closings, hbody, hclosings⟩ := body.scan?_of_isLone h more
    exact ⟨_, closings, Item.scan?_of_header hkind hbody, hclosings⟩
  | .withElse _ _ _ _ => simp [Tree.isLone] at h
  | .braced header bodies close =>
    obtain ⟨out, closings, hbodies, hclosings⟩ := bodies.scan?_of_isLone h (close.1 :: more)
    refine ⟨header.1.swift :: out, closings ++ [close.1], ?_, ?_⟩
    · simpa [Tree.items] using Item.scan?_of_neutral header.2.1 hbodies
    · intro item hitem
      rcases List.mem_append.mp hitem with hitem | hitem
      · exact hclosings item hitem
      · rw [List.mem_singleton.mp hitem]
        exact close.2

lemma Trees.scan?_of_isLone {Ts : Trees} (h : Ts.isLone = true) (more : List Item) :
    ∃ out closings, Item.scan? (Ts.items ++ more) = some (out, closings ++ more) ∧
      ∀ item ∈ closings, item.IsClosing := by
  match Ts with
  | .nil => simp [Trees.isLone] at h
  | .cons first .nil => simpa [Trees.items] using first.scan?_of_isLone h more
  | .cons first (.cons second others) =>
    rw [Trees.isLone, Bool.and_eq_true] at h
    · obtain ⟨out, closings, hscan, hclosings⟩ := Trees.scan?_of_isLone h.2 more
      obtain ⟨out', hfirst⟩ := first.scan?_of_isHollow h.1 hscan
      refine ⟨out', closings, ?_, hclosings⟩
      rw [Trees.items, List.append_assoc]
      exact hfirst
    · simp
end

lemma Item.settled_closings {closings more : List Item} (h : ∀ item ∈ closings, item.IsClosing)
    (hmore : Settled more) : Settled (closings ++ more) := by
  induction closings with
  | nil => exact hmore
  | cons item closings ih =>
    rw [List.forall_mem_cons] at h
    exact .single (not_header (.inl h.1.1)) (ih h.2)

/-- A header settles with its body. -/
lemma Item.settled_header {item : Item} {isIf : Bool} (h : item.IsHeader isIf) {body : Tree}
    (hbody : body.isLone = true) {more : List Item} (hmore : Settled more) :
    Settled (item :: (body.items ++ more)) := by
  obtain ⟨⟨closing, hkind⟩, -⟩ := h
  obtain ⟨out, closings, hscan, hclosings⟩ := body.scan?_of_isLone hbody more
  exact .header hkind hscan (settled_closings hclosings hmore)

mutual
lemma Tree.settled_of_isSound {T : Tree} (h : T.isSound = true) {more : List Item}
    (hmore : Item.Settled more) : Item.Settled (T.items ++ more) := by
  match T with
  | .simple line => exact .single (Item.not_header (.inr line.2.1)) hmore
  | .braceless header body => exact Item.settled_header header.2 h hmore
  | .withElse header body otherwise other =>
    rw [Tree.isSound, Bool.and_eq_true] at h
    rw [Tree.items, List.append_assoc]
    exact Item.settled_header header.2 h.1 (Item.settled_header otherwise.2 h.2 hmore)
  | .braced header bodies close =>
    have hclose : Item.Settled (close.1 :: more) := .single (Item.not_header (.inl close.2.1)) hmore
    rw [Tree.items, List.append_assoc]
    exact .single (Item.not_header (.inl header.2.1)) (bodies.settled_of_isSound h hclose)

lemma Trees.settled_of_isSound {Ts : Trees} (h : Ts.isSound = true) {more : List Item}
    (hmore : Item.Settled more) : Item.Settled (Ts.items ++ more) := by
  match Ts with
  | .nil => exact hmore
  | .cons first others =>
    rw [Trees.isSound, Bool.and_eq_true] at h
    rw [Trees.items, List.append_assoc]
    exact first.settled_of_isSound h.1 (others.settled_of_isSound h.2 hmore)
end

end Swiftward
