import Blockwork.Json.Read
import Blockwork.Proofs.Json.Scans

/-! Trees of two texts that begin alike, of which the first may be damaged behind what they have in
common. Whoever reads the first tree finds the damage, unless it fails before; then it fails for the
same cause on the second tree. -/

namespace Blockwork.Json

variable {α : Type} {damaged : Bool}

/-! ### What one reading tells of another -/

/-- What the work on the first tree tells of the work on the second. Nothing damaged is read to the end,
and nothing but damage or what is refused anyway counts as ill-formed. A fault of another kind may be
found one byte later than in the second tree. -/
inductive Foretells : Bool → Except Fault α → Except Fault α → Prop
  | ok (a : α) : Foretells false (.ok a) (.ok a)
  | damage {f : Fault} (h : f.cause.isSyntax = true) (x : Except Fault α) :
    Foretells true (.error f) x
  | refusal {f : Fault} (h : f.cause.refuses = true) (damaged : Bool) (x : Except Fault α) :
    Foretells damaged (.error f) x
  | shape {f f' : Fault} (h : f.cause.isSyntax = false) (hcause : f'.cause = f.cause)
      (hoffset : f.offset ≤ f'.offset + 1) (damaged : Bool) :
    Foretells damaged (.error f) (.error f')

namespace Foretells

variable {x x' : Except Fault α}

theorem refuses (h : Refuses x) : Foretells false x x := by
  cases x with
  | error f => exact .refusal (h f rfl) false _
  | ok a => exact .ok a

theorem bind {β : Type} {g g' : α → Except Fault β} (hx : Foretells false x x')
    (hg : ∀ a, x = .ok a → Foretells damaged (g a) (g' a)) :
    Foretells damaged (x >>= g) (x' >>= g') := by
  cases hx with
  | ok a => exact hg a rfl
  | refusal h => exact .refusal h damaged _
  | shape h hcause hoffset => exact .shape h hcause hoffset damaged

theorem bind_damaged {β : Type} {g g' : α → Except Fault β} (hx : Foretells true x x') :
    Foretells true (x >>= g) (x' >>= g') := by
  cases hx with
  | damage h => exact .damage h _
  | refusal h => exact .refusal h true _
  | shape h hcause hoffset => exact .shape h hcause hoffset true

theorem map {β : Type} (h : Foretells damaged x x') (f : α → β) :
    Foretells damaged (f <$> x) (f <$> x') := by
  cases h with
  | ok a => exact .ok (f a)
  | damage h => exact .damage h _
  | refusal h => exact .refusal h damaged _
  | shape h hcause hoffset => exact .shape h hcause hoffset damaged

end Foretells

/-! ### Trees of texts that begin alike -/

def Ending.BreaksList : Ending → Prop
  | .closed _ | .unread | .noKey _ => False
  | _ => True

def Ending.BreaksObject : Ending → Prop
  | .closed _ | .unread => False
  | _ => True

mutual

/-- The trees are alike up to the damage in the first, if there is any. -/
inductive Node.Alike : Bool → Node → Node → Prop
  | scalar {start stop : Nat} {value : Except Fault Json} (h : Refuses value) :
    Node.Alike false (.scalar start stop value) (.scalar start stop value)
  | array {damaged : Bool} {start : Nat} {items items' : List Node} {ending ending' : Ending}
      (h : ItemsAlike ending ending' damaged items items') :
    Node.Alike damaged (.array start items ending) (.array start items' ending')
  | object {damaged : Bool} {start : Nat} {members members' : List Member} {ending ending' : Ending}
      (h : MembersAlike ending ending' damaged members members') :
    Node.Alike damaged (.object start members ending) (.object start members' ending')
  | broken {start : Nat} {read skipped : Fault} (hread : read.cause.isSyntax = true)
      (hskipped : skipped.cause.isSyntax = true) (node' : Node) :
    Node.Alike true (.broken start read skipped) node'

inductive ItemsAlike : Ending → Ending → Bool → List Node → List Node → Prop
  | closed (stop : Nat) : ItemsAlike (.closed stop) (.closed stop) false [] []
  | cut {ending ending' : Ending} (h : ending.BreaksList) (items' : List Node) :
    ItemsAlike ending ending' true [] items'
  | broken {ending ending' : Ending} {start : Nat} {read skipped : Fault}
      (hread : read.cause.isSyntax = true) (hskipped : skipped.cause.isSyntax = true)
      (rest items' : List Node) :
    ItemsAlike ending ending' true (.broken start read skipped :: rest) items'
  | inside {ending ending' : Ending} {node node' : Node} (h : Node.Alike true node node')
      (rest rest' : List Node) : ItemsAlike ending ending' true (node :: rest) (node' :: rest')
  | cons {damaged : Bool} {ending ending' : Ending} {node node' : Node} {rest rest' : List Node}
      (h : Node.Alike false node node') (hrest : ItemsAlike ending ending' damaged rest rest') :
    ItemsAlike ending ending' damaged (node :: rest) (node' :: rest')

/-- A key is refused at the mark behind it, or one byte later if that mark is damage. -/
inductive MembersAlike : Ending → Ending → Bool → List Member → List Member → Prop
  | closed (stop : Nat) : MembersAlike (.closed stop) (.closed stop) false [] []
  | cut {ending ending' : Ending} (h : ending.BreaksObject) (members' : List Member) :
    MembersAlike ending ending' true [] members'
  | broken {ending ending' : Ending} {refused start : Nat} {key read skipped : Fault}
      (hkey : key.cause.isSyntax = true) (hskipped : skipped.cause.isSyntax = true)
      (rest members' : List Member) :
    MembersAlike ending ending' true (⟨.error key, refused, .broken start read skipped⟩ :: rest) members'
  | inside {ending ending' : Ending} {key : Except Fault String} {refused refused' : Nat}
      {node node' : Node} (hkey : Refuses key) (hrefused : refused ≤ refused' + 1)
      (h : Node.Alike true node node') (rest rest' : List Member) :
    MembersAlike ending ending' true (⟨key, refused, node⟩ :: rest) (⟨key, refused', node'⟩ :: rest')
  | cons {damaged : Bool} {ending ending' : Ending} {key : Except Fault String} {refused : Nat}
      {node node' : Node} {rest rest' : List Member} (hkey : Refuses key)
      (h : Node.Alike false node node') (hrest : MembersAlike ending ending' damaged rest rest') :
    MembersAlike ending ending' damaged (⟨key, refused, node⟩ :: rest) (⟨key, refused, node'⟩ :: rest')

end

section

variable {ending : Ending}

theorem Ending.BreaksList.fails (h : ending.BreaksList) {fault : Option Fault}
    (hfault : fault ∈ [ending.listFault?, ending.skippedListFault?, ending.fullListFault?]) :
    ∃ f, f.cause.isSyntax = true ∧ succeedUnless fault = .error f := by
  simp only [List.mem_cons, List.not_mem_nil, or_false] at hfault
  cases ending with
  | closed | unread | noKey => exact h.elim
  | _ => rcases hfault with rfl | rfl | rfl <;> exact ⟨_, rfl, rfl⟩

theorem Ending.BreaksObject.fails (h : ending.BreaksObject) {fault : Option Fault}
    (hfault : fault ∈ [ending.objectFault?, ending.skippedObjectFault?]) :
    ∃ f, f.cause.isSyntax = true ∧ succeedUnless fault = .error f := by
  simp only [List.mem_cons, List.not_mem_nil, or_false] at hfault
  cases ending with
  | closed | unread => exact h.elim
  | _ => rcases hfault with rfl | rfl <;> exact ⟨_, rfl, rfl⟩

end

/-! ### Readers -/

variable {node node' : Node}

theorem mismatch_foretells (h : Node.Alike damaged node node') (expected : String) :
    Foretells damaged (.error (node.mismatch expected) : Except Fault α)
      (.error (node'.mismatch expected)) := by
  cases h with
  | @scalar start stop value h =>
    rcases value with f | value
    · exact .refusal (h f rfl) false _
    · exact .shape rfl rfl (Nat.le_succ _) false
  | array | object => exact .shape rfl rfl (Nat.le_succ _) damaged
  | broken hread => exact .damage hread _

theorem readText_foretells (h : Node.Alike damaged node node') :
    Foretells damaged node.readText node'.readText := by
  have hmismatch : Foretells damaged (.error (node.mismatch "a string") : Except Fault String)
      (.error (node'.mismatch "a string")) := mismatch_foretells h _
  cases h with
  | @scalar start stop value h =>
    rcases value with f | value
    · exact hmismatch
    · cases value with
      | string s => exact .ok s
      | _ => exact hmismatch
  | array | object => exact hmismatch
  | broken hread => exact .damage hread _

theorem readText?_foretells (h : Node.Alike damaged node node') :
    Foretells damaged node.readText? node'.readText? := by
  have htext := (readText_foretells h).map some
  cases h with
  | @scalar start stop value h =>
    rcases value with f | value
    · exact htext
    · cases value with
      | null => exact .ok none
      | _ => exact htext
  | array | object => exact htext
  | broken hread => exact .damage hread _

mutual

theorem Node.Alike.read : ∀ {damaged : Bool} {node node' : Node}, Node.Alike damaged node node' →
    Foretells damaged node.read node'.read
  | _, _, _, .scalar h => .refuses h
  | _, _, _, .array h => h.read Json.array
  | _, _, _, .object h => h.read [] Json.object
  | _, _, _, .broken hread _ _ => .damage hread _

theorem ItemsAlike.read : ∀ {damaged : Bool} {ending ending' : Ending} {items items' : List Node},
    ItemsAlike ending ending' damaged items items' → ∀ {β : Type} (g : List Json → β), Foretells damaged
      (do let items ← readItems items; succeedUnless ending.listFault?; return g items)
      (do let items ← readItems items'; succeedUnless ending'.listFault?; return g items)
  | _, _, _, _, _, .closed _, _, g => .ok (g [])
  | _, _, _, _, _, .cut h _, _, _ => by
    obtain ⟨f, hf, hfails⟩ := h.fails (List.mem_cons_self ..)
    rw [readItems, hfails]
    exact .damage hf _
  | _, _, _, _, _, .broken hread _ _ _, _, _ => .damage hread _
  | _, _, _, _, _, .inside h _ _, _, g => by
    simp only [readItems, bind_assoc]
    exact h.read.bind_damaged
  | _, _, _, _, _, .cons h hrest, _, g => by
    simp only [readItems, bind_assoc, pure_bind]
    exact h.read.bind fun item _ => hrest.read fun items => g (item :: items)

theorem MembersAlike.read : ∀ {damaged : Bool} {ending ending' : Ending}
    {members members' : List Member}, MembersAlike ending ending' damaged members members' →
      ∀ {β : Type} (done : Entries Json) (g : Entries Json → β), Foretells damaged
        (do let members ← readMembers done members; succeedUnless ending.objectFault?; return g members)
        (do let members ← readMembers done members'; succeedUnless ending'.objectFault?; return g members)
  | _, _, _, _, _, .closed _, _, done, g => .ok (g done)
  | _, _, _, _, _, .cut h _, _, done, _ => by
    obtain ⟨f, hf, hfails⟩ := h.fails (List.mem_cons_self ..)
    rw [readMembers, hfails]
    exact .damage hf _
  | _, _, _, _, _, .broken hkey _ _ _, _, _, _ => .damage hkey _
  | _, _, _, _, _, .inside hkey _ h _ _, _, _, _ => by
    simp only [readMembers, bind_assoc]
    exact (Foretells.refuses hkey).bind fun _ _ => h.read.bind_damaged
  | _, _, _, _, _, .cons hkey h hrest, _, done, g => by
    simp only [readMembers, bind_assoc]
    exact (Foretells.refuses hkey).bind fun _ _ => h.read.bind fun _ _ => hrest.read _ g

end

theorem readMap_foretells (h : Node.Alike damaged node node') :
    Foretells damaged node.readMap node'.readMap := by
  have hmismatch : Foretells damaged (.error (node.mismatch "a map") : Except Fault (Entries Json))
      (.error (node'.mismatch "a map")) := mismatch_foretells h _
  cases h with
  | scalar | array => exact hmismatch
  | object h => exact h.read [] id
  | broken hread => exact .damage hread _

mutual

theorem Node.Alike.skip : ∀ {damaged : Bool} {node node' : Node}, Node.Alike damaged node node' →
    Foretells damaged node.skip node'.skip
  | _, _, _, .scalar _ => .ok ()
  | _, _, _, .array h => h.skip
  | _, _, _, .object h => h.skip
  | _, _, _, .broken _ hskipped _ => .damage hskipped _

theorem ItemsAlike.skip : ∀ {damaged : Bool} {ending ending' : Ending} {items items' : List Node},
    ItemsAlike ending ending' damaged items items' → Foretells damaged
      (do skipItems items; succeedUnless ending.skippedListFault?)
      (do skipItems items'; succeedUnless ending'.skippedListFault?)
  | _, _, _, _, _, .closed _ => .ok ()
  | _, _, _, _, _, .cut h _ => by
    obtain ⟨f, hf, hfails⟩ := h.fails (List.mem_cons_of_mem _ (List.mem_cons_self ..))
    rw [skipItems, hfails]
    exact .damage hf _
  | _, _, _, _, _, .broken _ hskipped _ _ => .damage hskipped _
  | _, _, _, _, _, .inside h _ _ => by
    simp only [skipItems, bind_assoc]
    exact h.skip.bind_damaged
  | _, _, _, _, _, .cons h hrest => by
    simp only [skipItems, bind_assoc]
    exact h.skip.bind fun _ _ => hrest.skip

theorem MembersAlike.skip : ∀ {damaged : Bool} {ending ending' : Ending}
    {members members' : List Member}, MembersAlike ending ending' damaged members members' →
      Foretells damaged
        (do skipMembers members; succeedUnless ending.skippedObjectFault?)
        (do skipMembers members'; succeedUnless ending'.skippedObjectFault?)
  | _, _, _, _, _, .closed _ => .ok ()
  | _, _, _, _, _, .cut h _ => by
    obtain ⟨f, hf, hfails⟩ := h.fails (List.mem_cons_of_mem _ (List.mem_cons_self ..))
    rw [skipMembers, hfails]
    exact .damage hf _
  | _, _, _, _, _, .broken _ hskipped _ _ => .damage hskipped _
  | _, _, _, _, _, .inside _ _ h _ _ => by
    simp only [skipMembers, bind_assoc]
    exact h.skip.bind_damaged
  | _, _, _, _, _, .cons _ h hrest => by
    simp only [skipMembers, bind_assoc]
    exact h.skip.bind fun _ _ => hrest.skip

end

end Blockwork.Json
