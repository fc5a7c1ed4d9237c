import Swiftward.Proofs.Conversion.Nesting.Sound

/-!
# Statements that come out wrong

Where the lines of a statement come out as the statement asks for, before a line that is no closing
brace, every body without braces ends where the scan stops (`Tree.isSound_of_nest`). For a scan that
stops too early makes its braces before the body ends, and one that did not stop in the body makes
none: then the braces that the body asks for are missing (`Tree.isBare`, `Tree.labels`).
-/

namespace Swiftward

/-! ### Lines that agree -/

/-- Whether a line of Swift is no closing brace. -/
def NestLine.isText : NestLine → Bool
  | text _ => true
  | closing => false

/-- Two lists that agree up to a line which is no closing brace agree before it, if as many such
lines stand before it in one as in the other. -/
lemma NestLine.append_text_inj {u v X Y : List NestLine} {x y : Text}
    (hcount : u.countP isText = v.countP isText)
    (h : u ++ .text x :: X = v ++ .text y :: Y) : u = v := by
  induction u generalizing v with
  | nil =>
    cases v with
    | nil => rfl
    | cons b v =>
      obtain ⟨rfl, -⟩ := List.cons.inj h
      simp [isText, List.countP_cons] at hcount
  | cons a u ih =>
    cases v with
    | nil =>
      obtain ⟨rfl, -⟩ := List.cons.inj h
      simp [isText, List.countP_cons] at hcount
    | cons b v =>
      obtain ⟨rfl, hrest⟩ := List.cons.inj h
      rw [ih ?_ hrest]
      simpa [List.countP_cons] using hcount

/-! ### Statements in which no scan stops -/

mutual
/-- A tree to which no simple statement belongs. -/
def Tree.isBare : Tree → Bool
  | .simple _ => false
  | .braceless _ body => body.isBare
  | .withElse _ body _ other => body.isBare && other.isBare
  | .braced _ bodies _ => bodies.isBare

@[inherit_doc Tree.isBare]
def Trees.isBare : Trees → Bool
  | .nil => true
  | .cons first more => first.isBare && more.isBare
end

mutual
/-- The lines of Swift that the tree asks for, without the braces that have to be made. -/
def Tree.labels : Tree → List NestLine
  | .simple line => [.text line.1.swift]
  | .braceless header body => .text header.1.swift :: body.labels
  | .withElse header body otherwise other =>
    .text header.1.swift :: body.labels ++ .text otherwise.1.swift :: other.labels
  | .braced header bodies _ => .text header.1.swift :: bodies.labels ++ [.closing]

@[inherit_doc Tree.labels]
def Trees.labels : Trees → List NestLine
  | .nil => []
  | .cons first more => first.labels ++ more.labels
end

mutual
lemma Tree.countP_labels (T : Tree) :
    T.labels.countP NestLine.isText = T.nest.countP NestLine.isText := by
  match T with
  | .simple line => rfl
  | .braceless header body =>
    simp [Tree.labels, Tree.nest, NestLine.isText, List.countP_cons, body.countP_labels]
  | .withElse header body otherwise other =>
    simp [Tree.labels, Tree.nest, NestLine.isText, List.countP_cons, body.countP_labels,
      other.countP_labels]
  | .braced header bodies close =>
    simp [Tree.labels, Tree.nest, NestLine.isText, List.countP_cons, bodies.countP_labels]

lemma Trees.countP_labels (Ts : Trees) :
    Ts.labels.countP NestLine.isText = Ts.nest.countP NestLine.isText := by
  match Ts with
  | .nil => rfl
  | .cons first others =>
    simp [Trees.labels, Trees.nest, first.countP_labels, others.countP_labels]
end

mutual
lemma Tree.length_labels_le (T : Tree) : T.labels.length ≤ T.nest.length := by
  match T with
  | .simple line => exact Nat.le_refl _
  | .braceless header body =>
    have := body.length_labels_le
    simp only [Tree.labels, Tree.nest, List.length_cons, List.length_append, List.length_nil]
    omega
  | .withElse header body otherwise other =>
    have := body.length_labels_le
    have := other.length_labels_le
    simp only [Tree.labels, Tree.nest, List.length_cons, List.length_append, List.length_nil]
    omega
  | .braced header bodies close =>
    have := bodies.length_labels_le
    simp only [Tree.labels, Tree.nest, List.length_cons, List.length_append, List.length_nil]
    omega

lemma Trees.length_labels_le (Ts : Trees) : Ts.labels.length ≤ Ts.nest.length := by
  match Ts with
  | .nil => exact Nat.le_refl _
  | .cons first others =>
    have := first.length_labels_le
    have := others.length_labels_le
    simp only [Trees.labels, Trees.nest, List.length_append]
    omega
end

mutual
/-- A bare tree is hollow if no brace has to be made for it. -/
lemma Tree.isHollow_of_isBare {T : Tree} (hbare : T.isBare = true)
    (hlength : T.nest.length ≤ T.labels.length) : T.isHollow = true := by
  match T with
  | .simple _ => simp [Tree.isBare] at hbare
  | .braceless header body =>
    have := body.length_labels_le
    simp only [Tree.labels, Tree.nest, List.length_cons, List.length_append, List.length_nil]
      at hlength
    omega
  | .withElse header body otherwise other =>
    have := body.length_labels_le
    have := other.length_labels_le
    simp only [Tree.labels, Tree.nest, List.length_cons, List.length_append, List.length_nil]
      at hlength
    omega
  | .braced header bodies close =>
    apply bodies.isHollow_of_isBare hbare
    simpa [Tree.labels, Tree.nest] using hlength

lemma Trees.isHollow_of_isBare {Ts : Trees} (hbare : Ts.isBare = true)
    (hlength : Ts.nest.length ≤ Ts.labels.length) : Ts.isHollow = true := by
  match Ts with
  | .nil => rfl
  | .cons first others =>
    rw [Trees.isBare, Bool.and_eq_true] at hbare
    have := first.length_labels_le
    have := others.length_labels_le
    simp only [Trees.labels, Trees.nest, List.length_append] at hlength
    rw [Trees.isHollow, Bool.and_eq_true]
    exact ⟨first.isHollow_of_isBare hbare.1 (by omega),
      others.isHollow_of_isBare hbare.2 (by omega)⟩
end

mutual
lemma Tree.isBare_of_isHollow {T : Tree} (h : T.isHollow = true) : T.isBare = true := by
  match T with
  | .simple _ | .braceless _ _ | .withElse _ _ _ _ => simp [Tree.isHollow] at h
  | .braced header bodies close => exact bodies.isBare_of_isHollow h

lemma Trees.isBare_of_isHollow {Ts : Trees} (h : Ts.isHollow = true) : Ts.isBare = true := by
  match Ts with
  | .nil => rfl
  | .cons first others =>
    rw [Trees.isHollow, Bool.and_eq_true] at h
    rw [Trees.isBare, first.isBare_of_isHollow h.1, others.isBare_of_isHollow h.2]
    rfl
end

mutual
lemma Tree.nest_of_isBare {T : Tree} (h : T.isBare = true) (pending : Nat) (more : List Item) :
    ∃ pending', Item.nest pending (T.items ++ more) = T.labels ++ Item.nest pending' more := by
  match T with
  | .simple _ => simp [Tree.isBare] at h
  | .braceless header body =>
    obtain ⟨pending', hbody⟩ := body.nest_of_isBare h (pending + 1) more
    exact ⟨pending', by simp [Tree.items, Tree.labels, header.2.nest, hbody]⟩
  | .withElse header body otherwise other =>
    rw [Tree.isBare, Bool.and_eq_true] at h
    obtain ⟨pending', hbody⟩ :=
      body.nest_of_isBare h.1 (pending + 1) (otherwise.1 :: (other.items ++ more))
    obtain ⟨pending'', hother⟩ := other.nest_of_isBare h.2 (pending' + 1) more
    exact ⟨pending'', by simp [Tree.items, Tree.labels, header.2.nest, otherwise.2.nest, hbody,
      hother]⟩
  | .braced header bodies close =>
    obtain ⟨pending', hbodies⟩ := bodies.nest_of_isBare h pending (close.1 :: more)
    exact ⟨pending', by simp [Tree.items, Tree.labels, header.2.nest, close.2.nest, hbodies]⟩

lemma Trees.nest_of_isBare {Ts : Trees} (h : Ts.isBare = true) (pending : Nat)
    (more : List Item) :
    ∃ pending', Item.nest pending (Ts.items ++ more) = Ts.labels ++ Item.nest pending' more := by
  match Ts with
  | .nil => exact ⟨pending, rfl⟩
  | .cons first others =>
    rw [Trees.isBare, Bool.and_eq_true] at h
    obtain ⟨pending', hfirst⟩ := first.nest_of_isBare h.1 pending (others.items ++ more)
    obtain ⟨pending'', hothers⟩ := others.nest_of_isBare h.2 pending' more
    exact ⟨pending'', by simp [Trees.items, Trees.labels, hfirst, hothers]⟩
end

/-! ### Where the scan stops -/

lemma Item.exists_nest_text {item : Item} (h : isClosing item.swift = false) (pending : Nat)
    (items : List Item) :
    ∃ lines, Item.nest pending (item :: items) = .text item.swift :: lines := by
  rw [Item.nest, NestLine.of_text h]
  cases item.kind with
  | statement => exact ⟨_, rfl⟩
  | neutral => exact ⟨_, rfl⟩
  | header closing => exact ⟨_, rfl⟩

lemma Item.nest_closings {closings : List Item} (h : ∀ item ∈ closings, item.IsClosing)
    (pending : Nat) (more : List Item) :
    Item.nest pending (closings ++ more) =
      .replicate closings.length .closing ++ Item.nest pending more := by
  induction closings with
  | nil => rfl
  | cons item closings ih =>
    rw [List.forall_mem_cons] at h
    rw [List.cons_append, h.1.nest, ih h.2]
    rfl

lemma Tree.exists_items_eq (T : Tree) :
    ∃ item items, T.items = item :: items ∧ isClosing item.swift = false := by
  match T with
  | .simple line => exact ⟨_, _, rfl, line.2.2⟩
  | .braceless header body => exact ⟨_, _, rfl, header.2.2.1⟩
  | .withElse header body otherwise other => exact ⟨_, _, rfl, header.2.2.1⟩
  | .braced header bodies close => exact ⟨_, _, rfl, header.2.2.1⟩

lemma Tree.exists_nest_eq (T : Tree) : ∃ x lines, T.nest = .text x :: lines := by
  match T with
  | .simple line => exact ⟨_, _, rfl⟩
  | .braceless header body => exact ⟨_, _, rfl⟩
  | .withElse header body otherwise other => exact ⟨_, _, rfl⟩
  | .braced header bodies close => exact ⟨_, _, rfl⟩

/-- The braces that a bare tree needs are not made before the next line. -/
lemma Tree.not_isBare {T : Tree} {pending : Nat} {closings more : List Item}
    (hclosings : ∀ item ∈ closings, item.IsClosing) {item : Item}
    (hitem : isClosing item.swift = false) {x : Text} {tail : List NestLine}
    (h : Item.nest pending (T.items ++ (closings ++ item :: more)) =
      T.nest ++ .closing :: (.replicate closings.length .closing ++ .text x :: tail)) :
    T.isBare = false := by
  by_contra hbare
  rw [Bool.not_eq_false] at hbare
  obtain ⟨pending', hlabels⟩ := T.nest_of_isBare hbare pending (closings ++ item :: more)
  obtain ⟨lines, hnest⟩ := Item.exists_nest_text hitem pending' more
  rw [hlabels, Item.nest_closings hclosings, hnest, ← List.append_assoc, ← List.cons_append,
    ← List.append_assoc] at h
  have heq := NestLine.append_text_inj (by simp [T.countP_labels, NestLine.isText]) h
  have hlength := congrArg List.length heq
  have := T.length_labels_le
  simp only [List.length_append, List.length_cons, List.length_replicate] at hlength
  omega

/-- If two braces are due, no line stands between them. -/
lemma Tree.not_text_behind {T : Tree} (hT : T.isLone = true ∨ T.isBare = true) {pending : Nat}
    {more : List Item} {item : Item} (hitem : isClosing item.swift = false) {x : Text}
    {tail : List NestLine}
    (h : Item.nest (pending + 2) (T.items ++ item :: more) =
      T.nest ++ .closing :: .text x :: tail) : False := by
  rcases hT with hlone | hbare
  · rw [T.nest_of_isLone hlone, List.append_assoc] at h
    have hrest := List.append_cancel_left h
    simp [List.replicate_succ] at hrest
  · have hnot := T.not_isBare (List.forall_mem_nil _) hitem h
    rw [hbare] at hnot
    exact absurd hnot (by decide)

mutual
/-- A body behind which a brace closes at once ends where the scan stops, or the scan did not stop
in it at all. -/
lemma Tree.isLone_or_isBare {T : Tree} {pending : Nat} {more : List Item} {tail : List NestLine}
    (h : Item.nest (pending + 1) (T.items ++ more) = T.nest ++ .closing :: tail) :
    T.isLone = true ∨ T.isBare = true := by
  match T with
  | .simple line => exact .inl rfl
  | .braceless header body =>
    simp only [Tree.items, Tree.nest, List.cons_append, List.append_assoc, List.nil_append,
      header.2.nest, List.cons.injEq, true_and] at h
    exact body.isLone_or_isBare h
  | .withElse header body otherwise other =>
    simp only [Tree.items, Tree.nest, List.cons_append, List.append_assoc, List.nil_append,
      header.2.nest, List.cons.injEq, true_and] at h
    exact (body.not_text_behind (body.isLone_or_isBare h) otherwise.2.2.1 h).elim
  | .braced header bodies close =>
    simp only [Tree.items, Tree.nest, List.cons_append, List.append_assoc, List.nil_append,
      header.2.nest, List.cons.injEq, true_and] at h
    exact bodies.isLone_or_isBare h

lemma Trees.isLone_or_isBare {Ts : Trees} {pending : Nat} {more : List Item}
    {tail : List NestLine}
    (h : Item.nest (pending + 1) (Ts.items ++ more) = Ts.nest ++ .closing :: tail) :
    Ts.isLone = true ∨ Ts.isBare = true := by
  match Ts with
  | .nil => exact .inr rfl
  | .cons first .nil =>
    simp only [Trees.items, Trees.nest, List.append_nil] at h
    simpa [Trees.isLone, Trees.isBare] using first.isLone_or_isBare h
  | .cons first (.cons second others) =>
    obtain ⟨item, items, hitems, hitem⟩ := second.exists_items_eq
    obtain ⟨x, lines, hnest⟩ := second.exists_nest_eq
    have hhollow : first.isHollow = true := by
      simp only [Trees.items, Trees.nest, hitems, hnest, List.cons_append, List.append_assoc] at h
      exact first.isHollow_of_nest hitem h
    have hmore :
        (Trees.cons second others).isLone = true ∨ (Trees.cons second others).isBare = true := by
      rw [Trees.items, List.append_assoc, first.nest_of_isHollow hhollow, Trees.nest,
        List.append_assoc] at h
      exact Trees.isLone_or_isBare (List.append_cancel_left h)
    rcases hmore with hlone | hbare
    · refine .inl ?_
      rw [Trees.isLone, hhollow, hlone]
      · rfl
      · simp
    · refine .inr ?_
      rw [Trees.isBare, first.isBare_of_isHollow hhollow, hbare]
      rfl

/-- Before another statement the scan goes on only behind hollow conditionals. -/
lemma Tree.isHollow_of_nest {T : Tree} {pending : Nat} {more : List Item} {item : Item}
    (hitem : isClosing item.swift = false) {x : Text} {tail : List NestLine}
    (h : Item.nest (pending + 1) (T.items ++ item :: more) = T.nest ++ .text x :: tail) :
    T.isHollow = true := by
  match T with
  | .simple line =>
    simp [Tree.items, Tree.nest, line.2.nest, List.replicate_succ] at h
  | .braceless header body =>
    simp only [Tree.items, Tree.nest, List.cons_append, List.append_assoc, List.nil_append,
      header.2.nest, List.cons.injEq, true_and] at h
    exact (body.not_text_behind (body.isLone_or_isBare h) hitem h).elim
  | .withElse header body otherwise other =>
    simp only [Tree.items, Tree.nest, List.cons_append, List.append_assoc, List.nil_append,
      header.2.nest, List.cons.injEq, true_and] at h
    exact (body.not_text_behind (body.isLone_or_isBare h) otherwise.2.2.1 h).elim
  | .braced header bodies close =>
    simp only [Tree.items, Tree.nest, List.cons_append, List.append_assoc, List.nil_append,
      header.2.nest, List.cons.injEq, true_and] at h
    rcases bodies.isLone_or_isBare h with hlone | hbare
    · rw [bodies.nest_of_isLone hlone, List.append_assoc] at h
      have hrest := List.append_cancel_left h
      cases pending <;> simp [List.replicate_succ, close.2.nest] at hrest
    · obtain ⟨pending', hlabels⟩ :=
        bodies.nest_of_isBare hbare (pending + 1) (close.1 :: item :: more)
      obtain ⟨lines, hnest⟩ := Item.exists_nest_text hitem pending' more
      rw [hlabels, close.2.nest, hnest, List.append_cons bodies.labels,
        List.append_cons bodies.nest] at h
      have heq := NestLine.append_text_inj (by simp [bodies.countP_labels]) h
      exact bodies.isHollow_of_isBare hbare (by rw [List.append_cancel_right heq])
end

/-! ### Bodies without braces -/

section Sound

variable {closings more : List Item} (hclosings : ∀ item ∈ closings, item.IsClosing) {item : Item}
  (hitem : isClosing item.swift = false) {x : Text} {tail : List NestLine}
include hclosings hitem

/-- A body ends where the scan stops if the tree comes out right before the next line. -/
lemma Tree.isLone_of_nest {T : Tree} {pending : Nat}
    (h : Item.nest (pending + 1) (T.items ++ (closings ++ item :: more)) =
      T.nest ++ .closing :: (.replicate closings.length .closing ++ .text x :: tail)) :
    T.isLone = true := by
  rcases T.isLone_or_isBare h with hlone | hbare
  · exact hlone
  · rw [T.not_isBare hclosings hitem h] at hbare
    exact absurd hbare (by decide)

end Sound

mutual
/-- A tree whose lines come out right before another line is sound. -/
lemma Tree.isSound_of_nest {T : Tree} {closings more : List Item}
    (hclosings : ∀ item ∈ closings, item.IsClosing) {item : Item}
    (hitem : isClosing item.swift = false) {x : Text} {tail : List NestLine}
    (h : Item.nest 0 (T.items ++ (closings ++ item :: more)) =
      T.nest ++ (.replicate closings.length .closing ++ .text x :: tail)) : T.isSound = true := by
  match T with
  | .simple line => rfl
  | .braceless header body =>
    simp only [Tree.items, Tree.nest, List.cons_append, List.append_assoc, List.nil_append,
      header.2.nest, List.cons.injEq, true_and] at h
    exact body.isLone_of_nest hclosings hitem h
  | .withElse header body otherwise other =>
    simp only [Tree.items, Tree.nest, List.cons_append, List.append_assoc, List.nil_append,
      header.2.nest, List.cons.injEq, true_and] at h
    have hbody : body.isLone = true :=
      body.isLone_of_nest (List.forall_mem_nil _) otherwise.2.2.1 h
    rw [body.nest_of_isLone hbody, List.append_assoc] at h
    have hother := List.append_cancel_left h
    simp only [List.replicate_succ, List.replicate_zero, List.cons_append, List.nil_append,
      otherwise.2.nest, List.cons.injEq, true_and] at hother
    rw [Tree.isSound, hbody, other.isLone_of_nest hclosings hitem hother]
    rfl
  | .braced header bodies close =>
    simp only [Tree.items, Tree.nest, List.cons_append, List.append_assoc, List.nil_append,
      header.2.nest, List.cons.injEq, true_and] at h
    have hcloses : ∀ item ∈ close.1 :: closings, item.IsClosing :=
      List.forall_mem_cons.mpr ⟨close.2, hclosings⟩
    exact bodies.isSound_of_nest hcloses hitem h

lemma Trees.isSound_of_nest {Ts : Trees} {closings more : List Item}
    (hclosings : ∀ item ∈ closings, item.IsClosing) {item : Item}
    (hitem : isClosing item.swift = false) {x : Text} {tail : List NestLine}
    (h : Item.nest 0 (Ts.items ++ (closings ++ item :: more)) =
      Ts.nest ++ (.replicate closings.length .closing ++ .text x :: tail)) :
    Ts.isSound = true := by
  match Ts with
  | .nil => rfl
  | .cons first .nil =>
    simp only [Trees.items, Trees.nest, List.append_nil] at h
    simpa [Trees.isSound] using first.isSound_of_nest hclosings hitem h
  | .cons first (.cons second others) =>
    obtain ⟨item', items, hitems, hitem'⟩ := second.exists_items_eq
    obtain ⟨x', lines, hnest⟩ := second.exists_nest_eq
    have hfirst : first.isSound = true := by
      simp only [Trees.items, Trees.nest, hitems, hnest, List.cons_append, List.append_assoc] at h
      exact first.isSound_of_nest (List.forall_mem_nil _) hitem' h
    rw [Trees.items, List.append_assoc, first.nest_of_isSound hfirst, Trees.nest,
      List.append_assoc] at h
    rw [Trees.isSound, hfirst, Trees.isSound_of_nest hclosings hitem (List.append_cancel_left h)]
    rfl
end

end Swiftward
