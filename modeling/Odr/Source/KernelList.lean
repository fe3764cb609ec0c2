/-
# The kernel list

The circular doubly linked list of `list.h`.  A list is known by the address of its head, which is
a cell of its own; the cells of the entries are linked with it in a ring.

The functions below write the links one after the other, as the source does.  `Op.Spec` says what
each of them is for: which list of cells it makes of which, provided that it is called on a head, on
an entry of a list, or on a cell that is an entry of none, as its comment demands.  A cell that
`INIT_LIST_HEAD` or `list_del_init` has led back to itself is a head without entries; it may become
an entry, and it may be deleted or moved like one.  `lists_of_ops` says that every sequence of calls
keeps to this, whatever the memory held before, and that the loops visit the cells of each list in
order.
-/
import Odr.Lib.Ring

namespace Odr

open Ring

namespace KernelList

variable {P : Type*} [DecidableEq P]

/-! ## The functions -/

/-- `INIT_LIST_HEAD`. -/
def initListHead (ptr : P) (m : Links P) : Links P := (m.setNext ptr ptr).setPrev ptr ptr

/-- `__list_add`: insert a new entry between two known consecutive entries. -/
def listAddCore (new prev next : P) (m : Links P) : Links P :=
  (((m.setPrev next new).setNext new next).setPrev new prev).setNext prev new

/-- `list_add`: insert a new entry after the head. -/
def listAdd (new head : P) (m : Links P) : Links P := listAddCore new head (m.next head) m

/-- `list_add_tail`: insert a new entry before the head. -/
def listAddTail (new head : P) (m : Links P) : Links P := listAddCore new (m.prev head) head m

/-- `__list_del`: make the previous and the next entry point to each other. -/
def listDelCore (prev next : P) (m : Links P) : Links P := (m.setPrev next prev).setNext prev next

/-- `list_del`, which leaves the addresses `LIST_POISON1` and `LIST_POISON2` in the entry. -/
def listDel (poison₁ poison₂ entry : P) (m : Links P) : Links P :=
  ((listDelCore (m.prev entry) (m.next entry) m).setNext entry poison₁).setPrev entry poison₂

/-- `list_del_init`. -/
def listDelInit (entry : P) (m : Links P) : Links P :=
  initListHead entry (listDelCore (m.prev entry) (m.next entry) m)

/-- `list_move`. -/
def listMove (list head : P) (m : Links P) : Links P :=
  listAdd list head (listDelCore (m.prev list) (m.next list) m)

/-- `list_move_tail`. -/
def listMoveTail (list head : P) (m : Links P) : Links P :=
  listAddTail list head (listDelCore (m.prev list) (m.next list) m)

/-- `list_empty`. -/
def listEmpty (head : P) (m : Links P) : Bool := m.next head = head

/-- `__list_splice`. -/
def listSpliceCore (list head : P) (m : Links P) : Links P :=
  let first := m.next list
  let last := m.prev list
  let atCell := m.next head
  (((m.setPrev first head).setNext head first).setNext last atCell).setPrev atCell last

/-- `list_splice`. -/
def listSplice (list head : P) (m : Links P) : Links P :=
  if listEmpty list m then m else listSpliceCore list head m

/-- `list_splice_init`. -/
def listSpliceInit (list head : P) (m : Links P) : Links P :=
  if listEmpty list m then m else initListHead list (listSpliceCore list head m)

section Loops

variable {S R : Type*} (links : S → Links P) (head : P) (body : P → S → S × Option R)

/-- `list_for_each_entry`, for at most `n` rounds. -/
def listForEachEntry (n : ℕ) (s : S) : Option (S × Option R) :=
  walk (fun s => (links s).next) head body n ((links s).next head) s

/-- `list_for_each_entry_reverse`, for at most `n` rounds. -/
def listForEachEntryReverse (n : ℕ) (s : S) : Option (S × Option R) :=
  walk (fun s => (links s).prev) head body n ((links s).prev head) s

end Loops

/-! ## What they are for -/

/-- The cells of the list of each head. -/
abbrev Lists (P : Type*) := P → Option (List P)

/-- The cell is a head or in a list. -/
def Owns (L : Lists P) (x : P) : Prop := ∃ h l, L h = some l ∧ x ∈ h :: l

/-- The memory holds these lists: each of them is a ring, and no two rings share a cell. -/
structure Represents (m : Links P) (L : Lists P) : Prop where
  ring : ∀ h l, L h = some l → IsRing m h l
  disjoint : ∀ h h' l l', L h = some l → L h' = some l' → h ≠ h' →
    List.Disjoint (h :: l) (h' :: l')

/-- The calls that change a list. -/
inductive Op (P : Type*)
  | init (ptr : P)
  | add (new head : P)
  | addTail (new head : P)
  | del (entry : P)
  | delInit (entry : P)
  | move (list head : P)
  | moveTail (list head : P)
  | splice (list head : P)
  | spliceInit (list head : P)

/-- What a call does in memory. -/
def Op.run (poison₁ poison₂ : P) (m : Links P) : Op P → Links P
  | .init ptr => initListHead ptr m
  | .add new head => listAdd new head m
  | .addTail new head => listAddTail new head m
  | .del entry => listDel poison₁ poison₂ entry m
  | .delInit entry => listDelInit entry m
  | .move list head => listMove list head m
  | .moveTail list head => listMoveTail list head m
  | .splice list head => listSplice list head m
  | .spliceInit list head => listSpliceInit list head m

/-- The lists after the cell `e` is taken out of the list of `h`. -/
def without (L : Lists P) (h : P) (l₁ l₂ : List P) : Lists P :=
  Function.update L h (some (l₁ ++ l₂))

/-- The cell is an entry of no list.  It may head one, which is given up when the cell is
initialised or becomes an entry. -/
def Loose (L : Lists P) (x : P) : Prop := ∀ h l, L h = some l → x ∉ l

/-- What a call is for.  A cell to be initialised or added is loose; a cell to be deleted or moved
is an entry of a list, or a head without entries; a head to add to is another cell and the head of a
list, and two lists are spliced. -/
inductive Op.Spec (L : Lists P) : Op P → Lists P → Prop
  | init {ptr : P} (hptr : Loose L ptr) :
      Spec L (.init ptr) (Function.update L ptr (some []))
  | add {new head : P} {l : List P} (hnew : Loose L new) (hne : new ≠ head)
      (hl : L head = some l) :
      Spec L (.add new head)
        (Function.update (Function.update L new none) head (some (new :: l)))
  | addTail {new head : P} {l : List P} (hnew : Loose L new) (hne : new ≠ head)
      (hl : L head = some l) :
      Spec L (.addTail new head)
        (Function.update (Function.update L new none) head (some (l ++ [new])))
  | del {entry h : P} {l₁ l₂ : List P} (hl : L h = some (l₁ ++ entry :: l₂)) :
      Spec L (.del entry) (without L h l₁ l₂)
  | delLone {entry : P} (hlone : L entry = some []) :
      Spec L (.del entry) (Function.update L entry none)
  | delInit {entry h : P} {l₁ l₂ : List P} (hl : L h = some (l₁ ++ entry :: l₂)) :
      Spec L (.delInit entry) (Function.update (without L h l₁ l₂) entry (some []))
  | delInitLone {entry : P} (hlone : L entry = some []) : Spec L (.delInit entry) L
  | move {list head h : P} {l l₁ l₂ : List P} (hl : L h = some (l₁ ++ list :: l₂))
      (hto : without L h l₁ l₂ head = some l) :
      Spec L (.move list head) (Function.update (without L h l₁ l₂) head (some (list :: l)))
  | moveLone {list head : P} {l : List P} (hlone : L list = some []) (hne : list ≠ head)
      (hl : L head = some l) :
      Spec L (.move list head)
        (Function.update (Function.update L list none) head (some (list :: l)))
  | moveTail {list head h : P} {l l₁ l₂ : List P} (hl : L h = some (l₁ ++ list :: l₂))
      (hto : without L h l₁ l₂ head = some l) :
      Spec L (.moveTail list head)
        (Function.update (without L h l₁ l₂) head (some (l ++ [list])))
  | moveTailLone {list head : P} {l : List P} (hlone : L list = some []) (hne : list ≠ head)
      (hl : L head = some l) :
      Spec L (.moveTail list head)
        (Function.update (Function.update L list none) head (some (l ++ [list])))
  | splice {list head : P} {l r : List P} (hne : list ≠ head) (hr : L list = some r)
      (hfull : r ≠ []) (hl : L head = some l) :
      Spec L (.splice list head)
        (Function.update (Function.update L list none) head (some (r ++ l)))
  | spliceEmpty {list head : P} (hr : L list = some []) : Spec L (.splice list head) L
  | spliceInit {list head : P} {l r : List P} (hne : list ≠ head) (hr : L list = some r)
      (hl : L head = some l) :
      Spec L (.spliceInit list head)
        (Function.update (Function.update L list (some [])) head (some (r ++ l)))

/-- A sequence of calls, each of which keeps to its contract. -/
inductive Runs : List (Op P) → Lists P → Lists P → Prop
  | nil (L : Lists P) : Runs [] L L
  | cons {op : Op P} {ops : List (Op P)} {L L₁ L₂ : Lists P} (h : op.Spec L L₁)
      (hs : Runs ops L₁ L₂) : Runs (op :: ops) L L₂

/-- What a sequence of calls does in memory. -/
def runAll (poison₁ poison₂ : P) (ops : List (Op P)) (m : Links P) : Links P :=
  ops.foldl (fun m op => op.run poison₁ poison₂ m) m

/-! ## One list -/

variable {m m' : Links P} {L : Lists P} {h g e x y new head list ptr : P} {l l₁ l₂ r : List P}

lemma isRing_initListHead (h : P) (m : Links P) : IsRing (initListHead h m) h [] :=
  ⟨by simp, by simp [Seg, Links.Joined, initListHead]⟩

lemma same_initListHead (hy : y ≠ h) : (initListHead h m).Same m y := by
  simp [Links.Same, initListHead, hy]

lemma same_listAdd (hy : y ≠ new) (h₁ : y ≠ h) (h₂ : y ≠ m.next h) :
    (listAdd new h m).Same m y := by
  simp [Links.Same, listAdd, listAddCore, hy, h₁, h₂]

lemma same_listAddTail (hy : y ≠ new) (h₁ : y ≠ h) (h₂ : y ≠ m.prev h) :
    (listAddTail new h m).Same m y := by
  simp [Links.Same, listAddTail, listAddCore, hy, h₁, h₂]

lemma same_unlink (h₁ : y ≠ m.prev e) (h₂ : y ≠ m.next e) :
    (listDelCore (m.prev e) (m.next e) m).Same m y := by
  simp [Links.Same, listDelCore, h₁, h₂]

lemma same_splice (h₁ : y ≠ m.next g) (h₂ : y ≠ m.prev g) (h₃ : y ≠ h) (h₄ : y ≠ m.next h) :
    (listSpliceCore g h m).Same m y := by
  simp [Links.Same, listSpliceCore, h₁, h₂, h₃, h₄]

lemma isRing_listAdd (hR : IsRing m h l) (hnew : new ∉ h :: l) :
    IsRing (listAdd new h m) h (new :: l) := by
  have hne : new ≠ h := fun h' => hnew (by simp [h'])
  have hnext : new ≠ m.next h := fun h' => hnew (h' ▸ hR.next_mem)
  refine hR.insert hnew ?_ ?_ (fun y h₁ h₂ => ?_) fun y h₁ h₂ => ?_
  · simp [Links.Joined, listAdd, listAddCore]
  · simp [Links.Joined, listAdd, listAddCore, hne, hnext.symm]
  · simp [listAdd, listAddCore, h₁, h₂]
  · simp [listAdd, listAddCore, h₁, h₂]

lemma isRing_listAddTail (hR : IsRing m h l) (hnew : new ∉ h :: l) :
    IsRing (listAddTail new h m) h (l ++ [new]) := by
  have hne : new ≠ h := fun h' => hnew (by simp [h'])
  have hprev : new ≠ m.prev h := fun h' => hnew (h' ▸ hR.prev_mem)
  refine hR.insert_last hnew ?_ ?_ (fun y h₁ h₂ => ?_) fun y h₁ h₂ => ?_
  · simp [Links.Joined, listAddTail, listAddCore]
  · simp [Links.Joined, listAddTail, listAddCore, hprev, hne.symm]
  · simp [listAddTail, listAddCore, h₁, h₂]
  · simp [listAddTail, listAddCore, h₁, h₂]

lemma isRing_unlink (hR : IsRing m h (l₁ ++ e :: l₂)) :
    IsRing (listDelCore (m.prev e) (m.next e) m) h (l₁ ++ l₂) := by
  refine hR.remove_mem ?_ (fun y h₁ _ => ?_) fun y h₁ _ => ?_
  · simp [Links.Joined, listDelCore]
  · simp [listDelCore, h₁]
  · simp [listDelCore, h₁]

lemma isRing_splice (hR : IsRing m h l) (hG : IsRing m g r) (hr : r ≠ [])
    (hdisj : List.Disjoint (h :: l) (g :: r)) : IsRing (listSpliceCore g h m) h (r ++ l) := by
  have hout : ∀ {y z : P}, y ∈ h :: l → z ∈ g :: r → y ≠ z := fun hy hz hyz =>
    hdisj hy (hyz ▸ hz)
  have h₁ : h ≠ m.prev g := hout (by simp) hG.prev_mem
  have h₂ : m.next h ≠ m.next g := hout hR.next_mem hG.next_mem
  refine hR.splice hG hr hdisj ?_ ?_ (fun y h₁ h₂ => ?_) fun y h₁ h₂ => ?_
  · simp [Links.Joined, listSpliceCore, h₁, h₂.symm]
  · simp [Links.Joined, listSpliceCore]
  · simp [listSpliceCore, h₁, h₂]
  · simp [listSpliceCore, h₁, h₂]

/-! ## All lists -/

omit [DecidableEq P] in
lemma Represents.ne_of_free (hx : ¬Owns L x) (hl : L h = some l) (hy : y ∈ h :: l) : y ≠ x :=
  fun hyx => hx ⟨h, l, hl, hyx ▸ hy⟩

/-- A loose cell is in no list once the list that it heads is given up. -/
lemma Loose.free (hx : Loose L x) : ¬Owns (Function.update L x none) x := by
  rintro ⟨h, l, hl, hmem⟩
  rcases eq_or_ne h x with rfl | hne
  · simp at hl
  · rw [Function.update_of_ne hne] at hl
    rcases List.mem_cons.mp hmem with rfl | hmem
    · exact hne rfl
    · exact hx h l hl hmem

/-- A cell stays loose when a list is set that it is no entry of. -/
lemma Loose.set (hx : Loose L x) (hl : x ∉ l) : Loose (Function.update L h (some l)) x := by
  intro h' l' hl'
  rcases eq_or_ne h' h with rfl | hne
  · rw [Function.update_self, Option.some.injEq] at hl'
    exact hl' ▸ hl
  · rw [Function.update_of_ne hne] at hl'
    exact hx h' l' hl'

lemma Loose.forget (hx : Loose L x) (g : P) : Loose (Function.update L g none) x := by
  intro h l hl
  rcases eq_or_ne h g with rfl | hne
  · simp at hl
  · rw [Function.update_of_ne hne] at hl
    exact hx h l hl

/-- One list is replaced by another, whose cells are in no other list, and the cells of the other
lists are left alone. -/
lemma Represents.update (hR : Represents m L) (hring : IsRing m' h l)
    (hnew : ∀ y ∈ h :: l, ∀ h' l', h' ≠ h → L h' = some l' → y ∉ h' :: l')
    (hsame : ∀ h' l', h' ≠ h → L h' = some l' → ∀ y ∈ h' :: l', m'.Same m y) :
    Represents m' (Function.update L h (some l)) where
  ring h' l' hl' := by
    rcases eq_or_ne h' h with rfl | hne
    · rw [Function.update_self, Option.some.injEq] at hl'
      exact hl' ▸ hring
    · rw [Function.update_of_ne hne] at hl'
      exact (hR.ring h' l' hl').congr (hsame h' l' hne hl')
  disjoint h₁ h₂ s₁ s₂ hs₁ hs₂ hne := by
    rcases eq_or_ne h₁ h with rfl | hne₁
    · rw [Function.update_self, Option.some.injEq] at hs₁
      rw [Function.update_of_ne hne.symm] at hs₂
      exact fun y hy hy' => hnew y (hs₁ ▸ hy) h₂ s₂ hne.symm hs₂ hy'
    · rw [Function.update_of_ne hne₁] at hs₁
      rcases eq_or_ne h₂ h with rfl | hne₂
      · rw [Function.update_self, Option.some.injEq] at hs₂
        exact fun y hy hy' => hnew y (hs₂ ▸ hy') h₁ s₁ hne₁ hs₁ hy
      · rw [Function.update_of_ne hne₂] at hs₂
        exact hR.disjoint h₁ h₂ s₁ s₂ hs₁ hs₂ hne

omit [DecidableEq P] in
/-- A cell of one list is in no other. -/
lemma Represents.not_mem (hR : Represents m L) (hl : L h = some l) (hx : x ∈ h :: l) {h' : P}
    {l' : List P} (hne : h' ≠ h) (hl' : L h' = some l') : x ∉ h' :: l' :=
  fun hx' => hR.disjoint h h' l l' hl hl' hne.symm hx hx'

omit [DecidableEq P] in
lemma Represents.ne_of_mem (hR : Represents m L) (hl : L h = some l) (hx : x ∈ h :: l) {h' : P}
    {l' : List P} (hne : h' ≠ h) (hl' : L h' = some l') (hy : y ∈ h' :: l') : y ≠ x :=
  fun hyx => hR.not_mem hl hx hne hl' (hyx ▸ hy)

/-- A list is forgotten. -/
lemma Represents.forget (hR : Represents m L) (g : P) :
    Represents m (Function.update L g none) := by
  have hold : ∀ {h l}, Function.update L g none h = some l → L h = some l := by
    intro h l hl
    rcases eq_or_ne h g with rfl | hne
    · simp at hl
    · rwa [Function.update_of_ne hne] at hl
  exact ⟨fun h l hl => hR.ring h l (hold hl),
    fun h h' l l' hl hl' => hR.disjoint h h' l l' (hold hl) (hold hl')⟩

omit [DecidableEq P] in
lemma Represents.same (hR : Represents m L) (hsame : ∀ y, m'.Same m y) : Represents m' L :=
  ⟨fun h l hl => (hR.ring h l hl).congr fun y _ => hsame y, hR.disjoint⟩

omit [DecidableEq P] in
/-- A head without entries is no entry of another list. -/
lemma Represents.loose (hR : Represents m L) (hlone : L e = some []) : Loose L e := by
  intro h l hl hmem
  rcases eq_or_ne h e with rfl | hne
  · exact (List.nodup_cons.mp (hR.ring h l hl).nodup).1 hmem
  · exact hR.disjoint h e l [] hl hlone hne (List.mem_cons_of_mem _ hmem) (by simp)

/-- To take out a head without entries changes nothing. -/
lemma Represents.unlink_lone (hR : Represents m L) (hlone : L e = some []) :
    Represents (listDelCore (m.prev e) (m.next e) m) L := by
  have hring := hR.ring e [] hlone
  have hnext : m.next e = e := hring.next_nil
  have hprev : m.prev e = e := hring.seg.2
  refine hR.same fun y => ?_
  rcases eq_or_ne y e with rfl | hy
  · simp [Links.Same, listDelCore, hnext, hprev]
  · simp [Links.Same, listDelCore, hnext, hprev, hy]

omit [DecidableEq P] in
/-- Writes to a cell that is in no list change none. -/
lemma Represents.congr (hR : Represents m L) (hx : ¬Owns L x)
    (hsame : ∀ y, y ≠ x → m'.Same m y) : Represents m' L where
  ring h l hl := (hR.ring h l hl).congr fun y hy =>
    hsame y (Represents.ne_of_free hx hl hy)
  disjoint := hR.disjoint

lemma Represents.init (hR : Represents m L) (hfree : ¬Owns L ptr) :
    Represents (initListHead ptr m) (Function.update L ptr (some [])) := by
  refine hR.update (isRing_initListHead ptr m) (fun y hy h' l' _ hl' hy' => ?_)
    fun h' l' _ hl' y hy => same_initListHead (ne_of_free hfree hl' hy)
  obtain rfl : y = ptr := by simpa using hy
  exact hfree ⟨h', l', hl', hy'⟩

omit [DecidableEq P] in
lemma Represents.not_mem_of_add (hR : Represents m L) (hfree : ¬Owns L new) (hl : L h = some l)
    {s : List P} (hs : ∀ y ∈ s, y = new ∨ y ∈ l) (y : P) (hy : y ∈ h :: s) (h' : P)
    (l' : List P) (hne : h' ≠ h) (hl' : L h' = some l') : y ∉ h' :: l' := by
  rcases List.mem_cons.mp hy with rfl | hy
  · exact hR.not_mem hl (by simp) hne hl'
  rcases hs y hy with rfl | hy
  · exact fun hy' => hfree ⟨h', l', hl', hy'⟩
  · exact hR.not_mem hl (List.mem_cons_of_mem _ hy) hne hl'

lemma Represents.add (hR : Represents m L) (hfree : ¬Owns L new) (hl : L head = some l) :
    Represents (listAdd new head m) (Function.update L head (some (new :: l))) := by
  have hring := hR.ring head l hl
  refine hR.update (isRing_listAdd hring fun hn => hfree ⟨head, l, hl, hn⟩)
    (hR.not_mem_of_add hfree hl fun y hy => List.mem_cons.mp hy)
    fun h' l' hne hl' y hy => same_listAdd (ne_of_free hfree hl' hy) ?_ ?_
  · exact hR.ne_of_mem hl (by simp) hne hl' hy
  · exact hR.ne_of_mem hl hring.next_mem hne hl' hy

lemma Represents.addTail (hR : Represents m L) (hfree : ¬Owns L new) (hl : L head = some l) :
    Represents (listAddTail new head m) (Function.update L head (some (l ++ [new]))) := by
  have hring := hR.ring head l hl
  refine hR.update (isRing_listAddTail hring fun hn => hfree ⟨head, l, hl, hn⟩)
    (hR.not_mem_of_add hfree hl fun y hy => ?_)
    fun h' l' hne hl' y hy => same_listAddTail (ne_of_free hfree hl' hy) ?_ ?_
  · simpa [or_comm] using hy
  · exact hR.ne_of_mem hl (by simp) hne hl' hy
  · exact hR.ne_of_mem hl hring.prev_mem hne hl' hy

/-- Taking a cell out of its list leaves the other lists, and the cell in none. -/
lemma Represents.unlink (hR : Represents m L) (hl : L h = some (l₁ ++ e :: l₂)) :
    Represents (listDelCore (m.prev e) (m.next e) m) (without L h l₁ l₂) ∧
      ¬Owns (without L h l₁ l₂) e := by
  have hring := hR.ring h _ hl
  have hsub : ∀ y ∈ h :: (l₁ ++ l₂), y ∈ h :: (l₁ ++ e :: l₂) := by
    intro y hy
    simp only [List.mem_cons, List.mem_append] at hy ⊢
    tauto
  have he : e ∈ h :: (l₁ ++ e :: l₂) := by simp
  have hprev : m.prev e ∈ h :: (l₁ ++ e :: l₂) := by
    have hp := (ring_rotate.mp hring).prev_mem
    simp only [List.mem_cons, List.mem_append] at hp ⊢
    tauto
  have hnext : m.next e ∈ h :: (l₁ ++ e :: l₂) := by
    have hp := (ring_rotate.mp hring).next_mem
    simp only [List.mem_cons, List.mem_append] at hp ⊢
    tauto
  constructor
  · refine hR.update (isRing_unlink hring)
      (fun y hy h' l' hne hl' => hR.not_mem hl (hsub y hy) hne hl')
      fun h' l' hne hl' y hy => same_unlink ?_ ?_
    · exact hR.ne_of_mem hl hprev hne hl' hy
    · exact hR.ne_of_mem hl hnext hne hl' hy
  · rintro ⟨h', l', hl', hmem⟩
    rcases eq_or_ne h' h with rfl | hne
    · rw [without, Function.update_self, Option.some.injEq] at hl'
      subst hl'
      have hnd := (ring_rotate.mp hring).nodup
      simp only [List.nodup_cons, List.mem_append, List.mem_cons] at hnd hmem
      tauto
    · rw [without, Function.update_of_ne hne] at hl'
      exact hR.not_mem hl he hne hl' hmem

lemma Represents.del (hR : Represents m L) (hl : L h = some (l₁ ++ e :: l₂)) (p₁ p₂ : P) :
    Represents (listDel p₁ p₂ e m) (without L h l₁ l₂) := by
  obtain ⟨hU, hfree⟩ := hR.unlink hl
  exact hU.congr hfree fun y hy => by simp [Links.Same, listDel, hy]

lemma Represents.del_lone (hR : Represents m L) (hlone : L e = some []) (p₁ p₂ : P) :
    Represents (listDel p₁ p₂ e m) (Function.update L e none) :=
  ((hR.unlink_lone hlone).forget e).congr (hR.loose hlone).free
    fun y hy => by simp [Links.Same, listDel, hy]

lemma Represents.splice (hR : Represents m L) (hne : g ≠ h) (hr : L g = some r)
    (hl : L h = some l) :
    Represents (listSplice g h m)
        (Function.update (Function.update L g none) h (some (r ++ l))) ∧
      ¬Owns (Function.update (Function.update L g none) h (some (r ++ l))) g := by
  have hG := hR.ring g r hr
  have hH := hR.ring h l hl
  have hforget := hR.forget g
  have hl' : Function.update L g none h = some l := by rwa [Function.update_of_ne hne.symm]
  have hdisj := hR.disjoint h g l r hl hr hne.symm
  constructor
  · rw [listSplice]
    split
    · next hempty =>
      rw [listEmpty, decide_eq_true_eq, hG.next_eq_self] at hempty
      subst hempty
      rw [List.nil_append, Function.update_eq_self_iff.mpr hl'.symm]
      exact hforget
    · next hfull =>
      rw [listEmpty, decide_eq_true_eq, hG.next_eq_self] at hfull
      have hold : ∀ {h' s}, h' ≠ h → Function.update L g none h' = some s →
          h' ≠ g ∧ L h' = some s := by
        intro h' s _ hs
        rcases eq_or_ne h' g with rfl | hg
        · simp at hs
        · exact ⟨hg, by rwa [Function.update_of_ne hg] at hs⟩
      refine hforget.update (isRing_splice hH hG hfull hdisj) (fun y hy h' s hh hs => ?_)
        fun h' s hh hs y hy => ?_
      · obtain ⟨hg, hs⟩ := hold hh hs
        rw [← List.cons_append, List.mem_append, List.mem_cons] at hy
        rcases hy with (rfl | hy) | hy
        · exact hR.not_mem hl (by simp) hh hs
        · exact hR.not_mem hr (List.mem_cons_of_mem _ hy) hg hs
        · exact hR.not_mem hl (List.mem_cons_of_mem _ hy) hh hs
      · obtain ⟨hg, hs⟩ := hold hh hs
        refine same_splice ?_ ?_ ?_ ?_
        · exact hR.ne_of_mem hr hG.next_mem hg hs hy
        · exact hR.ne_of_mem hr hG.prev_mem hg hs hy
        · exact hR.ne_of_mem hl (by simp) hh hs hy
        · exact hR.ne_of_mem hl hH.next_mem hh hs hy
  · rintro ⟨h', s, hs, hmem⟩
    rcases eq_or_ne h' h with rfl | hh
    · rw [Function.update_self, Option.some.injEq] at hs
      subst hs
      simp only [List.mem_cons, List.mem_append] at hmem
      rcases hmem with rfl | hmem | hmem
      · exact hne rfl
      · exact (List.nodup_cons.mp hG.nodup).1 hmem
      · exact hdisj (List.mem_cons_of_mem _ hmem) (by simp)
    · rw [Function.update_of_ne hh] at hs
      rcases eq_or_ne h' g with rfl | hg
      · simp at hs
      · rw [Function.update_of_ne hg] at hs
        exact hR.not_mem hr (by simp) hg hs hmem

/-- An empty list cannot be told from one that is initialised anew. -/
lemma listSpliceInit_eq (hG : IsRing m g r) :
    ∀ y, (listSpliceInit g h m).Same (initListHead g (listSplice g h m)) y := by
  intro y
  rw [listSpliceInit, listSplice]
  split
  · next hempty =>
    have hnext : m.next g = g := of_decide_eq_true hempty
    have hr := hG.next_eq_self.mp hnext
    subst hr
    have hprev : m.prev g = g := hG.seg.2
    rcases eq_or_ne y g with rfl | hy
    · simp [Links.Same, initListHead, hnext, hprev]
    · simp [Links.Same, initListHead, hy]
  · exact ⟨rfl, rfl⟩

/-- A head keeps its list when another cell is given up. -/
lemma update_none_of_ne (hne : new ≠ head) (hl : L head = some l) :
    Function.update L new none head = some l := by
  rwa [Function.update_of_ne hne.symm]

/-- **Each call does what it is for.** -/
theorem Represents.step {op : Op P} {L' : Lists P} (hR : Represents m L) (hop : op.Spec L L')
    (p₁ p₂ : P) : Represents (op.run p₁ p₂ m) L' := by
  cases hop with
  | @init ptr hptr =>
    have hI := (hR.forget ptr).init hptr.free
    rwa [Function.update_idem] at hI
  | add hnew hne hl => exact (hR.forget _).add hnew.free (update_none_of_ne hne hl)
  | addTail hnew hne hl => exact (hR.forget _).addTail hnew.free (update_none_of_ne hne hl)
  | del hl => exact hR.del hl p₁ p₂
  | delLone hlone => exact hR.del_lone hlone p₁ p₂
  | delInit hl =>
    obtain ⟨hU, hfree⟩ := hR.unlink hl
    exact hU.init hfree
  | @delInitLone entry hlone =>
    have hI := ((hR.unlink_lone hlone).forget entry).init (hR.loose hlone).free
    rwa [Function.update_idem, Function.update_eq_self_iff.mpr hlone.symm] at hI
  | move hl hto =>
    obtain ⟨hU, hfree⟩ := hR.unlink hl
    exact hU.add hfree hto
  | moveLone hlone hne hl =>
    exact ((hR.unlink_lone hlone).forget _).add (hR.loose hlone).free (update_none_of_ne hne hl)
  | moveTail hl hto =>
    obtain ⟨hU, hfree⟩ := hR.unlink hl
    exact hU.addTail hfree hto
  | moveTailLone hlone hne hl =>
    exact ((hR.unlink_lone hlone).forget _).addTail (hR.loose hlone).free
      (update_none_of_ne hne hl)
  | splice hne hr hfull hl => exact (hR.splice hne hr hl).1
  | spliceEmpty hr =>
    have hempty := (hR.ring _ _ hr).next_nil
    rwa [Op.run, listSplice, listEmpty, if_pos (decide_eq_true hempty)]
  | @spliceInit g h l r hne hr hl =>
    obtain ⟨hS, hfree⟩ := hR.splice hne hr hl
    have hI := hS.init hfree
    have hcomm : Function.update (Function.update (Function.update L g none) h (some (r ++ l)))
          g (some []) = Function.update (Function.update L g (some [])) h (some (r ++ l)) := by
      rw [Function.update_comm hne.symm, Function.update_idem]
    rw [hcomm] at hI
    exact hI.same (listSpliceInit_eq (h := h) (hR.ring g r hr))

/-- A sequence of calls does what it is for. -/
lemma Represents.run {ops : List (Op P)} {L' : Lists P} (hruns : Runs ops L L')
    (hR : Represents m L) (p₁ p₂ : P) : Represents (runAll p₁ p₂ ops m) L' := by
  induction hruns generalizing m with
  | nil => exact hR
  | cons hop _ ih => exact ih (hR.step hop p₁ p₂)

/-! ## Loops -/

/-- A loop body that notes the entries it sees. -/
def note (entry : P) (seen : List P) : List P × Option Empty := (seen ++ [entry], none)

omit [DecidableEq P] in
lemma visit_note (l seen : List P) : visit note l seen = (seen ++ l, none) := by
  induction l generalizing seen with
  | nil => simp [visit]
  | cons p l ih => simp [visit, note, ih]

/-- **The lists of `list.h`.** Whatever the memory holds at first, after any sequence of calls that
keep to their contracts every list is what the calls make of it: `list_empty` tells whether it has
entries, and the two loops come to an end and visit its entries, each once, in order and in reverse
order. -/
theorem lists_of_ops {ops : List (Op P)} (hops : Runs ops (fun _ => none) L) (m : Links P)
    (p₁ p₂ : P) (hl : L h = some l) :
    (listEmpty h (runAll p₁ p₂ ops m) = true ↔ l = []) ∧ l.Nodup ∧ ∀ n, l.length < n →
      listForEachEntry (fun _ => runAll p₁ p₂ ops m) h note n [] = some (l, none) ∧
      listForEachEntryReverse (fun _ => runAll p₁ p₂ ops m) h note n []
        = some (l.reverse, none) := by
  have hnone : Represents m (fun _ => none) := ⟨by simp, by simp⟩
  have hring := (hnone.run hops p₁ p₂).ring h l hl
  refine ⟨?_, (List.nodup_cons.mp hring.nodup).2, fun n hn => ⟨?_, ?_⟩⟩
  · rw [listEmpty, decide_eq_true_eq, hring.next_eq_self]
  · rw [listForEachEntry, walk_ring (fun _ => runAll p₁ p₂ ops m) (fun _ _ => rfl) hring hn,
      visit_note, List.nil_append]
  · rw [listForEachEntryReverse,
      walk_ring_reverse (fun _ => runAll p₁ p₂ ops m) (fun _ _ => rfl) hring hn, visit_note,
      List.nil_append]

/-- Two lists are made in a memory full of sevens, an entry that was initialised goes to the one and
from there to the other, and the other is spliced back. -/
theorem lists_of_ops_splice :
    listForEachEntryReverse (fun _ => runAll 100 200
      [.init 0, .init 9, .init 1, .add 1 0, .addTail 2 9, .delInit 1, .addTail 1 9,
        .spliceInit 9 0] ⟨fun _ => 7, fun _ => 7⟩) 0 note 3 [] = some ([1, 2], none) := by
  have hnone : ∀ x : ℕ, Loose (fun _ => none) x := by simp [Loose]
  have hinit : ∀ x : ℕ, Loose (Function.update (Function.update (Function.update (fun _ => none) 0
      (some [])) 9 (some [])) 1 (some [])) x :=
    fun x => (((hnone x).set (by simp)).set (by simp)).set (by simp)
  have hops : Runs (P := ℕ) [.init 0, .init 9, .init 1, .add 1 0, .addTail 2 9, .delInit 1,
      .addTail 1 9, .spliceInit 9 0] (fun _ => none) _ :=
    .cons (.init (hnone 0)) <| .cons (.init ((hnone 9).set (by simp))) <|
      .cons (.init (((hnone 1).set (by simp)).set (by simp))) <|
      .cons (.add (hinit 1) (by decide) rfl) <|
      .cons (.addTail (((hinit 2).forget 1).set (by simp)) (by decide) rfl) <|
      .cons (@Op.Spec.delInit _ _ _ 1 0 [] [] rfl) <|
      -- once it is deleted the cell `1` is an entry of no list
      .cons (.addTail (fun h l hl => by
        simp only [without, Function.update_apply] at hl
        split_ifs at hl <;> cases hl <;> simp) (by decide) rfl) <|
      .cons (.spliceInit (by decide) rfl rfl) <| .nil _
  exact ((lists_of_ops hops ⟨fun _ => 7, fun _ => 7⟩ 100 200 (l := [2, 1]) rfl).2.2 3
    (by decide)).2

end KernelList

end Odr
