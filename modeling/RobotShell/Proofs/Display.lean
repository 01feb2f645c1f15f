import RobotShell.Expr.Display
/-!
# The canonical text of a tree

`Expr.canonical` says how a tree is written, form by form. The writer keeps the work still to do on a
list, and what it writes is the text of everything on that list, in order: `display` is `canonical`.
-/

namespace RobotShell.Expr

/-- A form: its name and its parts, with a blank before each part, in parentheses. -/
def form (head : String) (parts : List String) : String :=
  "(" ++ head ++ String.join (parts.map (" " ++ ·)) ++ ")"

/-- The text of a tree, which is made of the texts of its parts. -/
def canonical : Expr → String
  | error message _ => form "Error:" [message]
  | seq left right => form "Continue" [left.canonical, right.canonical]
  | assign x e => form "Let" [x.text, e.canonical]
  | name x => x.text
  | int n => toString n.toInt
  | help => "Help"
  | echo x => form "Echo" [x.text]
  | landmark => "Landmark"
  | rotate e => form "Rotate" [e.canonical]
  | move e => form "Move" [e.canonical]
  | buy x e => form "Buy" [x.text, e.canonical]
  | sell x e => form "Sell" [x.text, e.canonical]
  | inventory => "Inventory"
  | marketPrices => "MarketPrices"
  | cityPrices => "CityPrices"
  | quit => "Quit"
  | stop => "Stop"

/-- The text that a piece stands for. -/
def Piece.shown : Piece → String
  | tree e => e.canonical
  | text s => s

/-- The writer writes all that is still to be written, in order. -/
theorem write_eq (out : String) (todo : List Piece) : write out todo = out ++ String.join (todo.map Piece.shown) := by
  fun_induction write out todo with
  | case1 out => simp
  | _ =>
    rename_i ih
    rw [ih, ← String.toList_inj]
    simp [Piece.shown, canonical, form]

theorem display_eq (e : Expr) : e.display = e.canonical := by
  rw [display, write_eq]
  simp [Piece.shown]

/-- The laws of the text of a tree, form by form. What is written for a tree with parts is made of what is
written for its parts. -/
structure Canonical (text : Expr → String) : Prop where
  error : ∀ message col, text (error message col) = "(Error: " ++ message ++ ")"
  seq : ∀ left right, text (seq left right) = "(Continue " ++ text left ++ " " ++ text right ++ ")"
  assign : ∀ x e, text (assign x e) = "(Let " ++ x.text ++ " " ++ text e ++ ")"
  name : ∀ x, text (name x) = x.text
  int : ∀ n, text (int n) = toString n.toInt
  help : text help = "Help"
  echo : ∀ x, text (echo x) = "(Echo " ++ x.text ++ ")"
  landmark : text landmark = "Landmark"
  rotate : ∀ e, text (rotate e) = "(Rotate " ++ text e ++ ")"
  move : ∀ e, text (move e) = "(Move " ++ text e ++ ")"
  buy : ∀ x e, text (buy x e) = "(Buy " ++ x.text ++ " " ++ text e ++ ")"
  sell : ∀ x e, text (sell x e) = "(Sell " ++ x.text ++ " " ++ text e ++ ")"
  inventory : text inventory = "Inventory"
  marketPrices : text marketPrices = "MarketPrices"
  cityPrices : text cityPrices = "CityPrices"
  quit : text quit = "Quit"
  stop : text stop = "Stop"

theorem form_one (head a : String) : form head [a] = "(" ++ head ++ " " ++ a ++ ")" := by
  simp [form, String.append_assoc]

theorem form_two (head a b : String) : form head [a, b] = "(" ++ head ++ " " ++ a ++ " " ++ b ++ ")" := by
  simp [form, String.append_assoc]

theorem canonical_laws : Canonical canonical := by
  constructor <;> intros <;> simp only [canonical, form_one, form_two] <;> rfl

/-- The laws leave no choice: they say what every tree's text is. -/
theorem Canonical.eq {text : Expr → String} (h : Canonical text) (e : Expr) : text e = e.canonical := by
  have hc := canonical_laws
  induction e with
  | error message col => rw [h.error, hc.error]
  | seq left right ihl ihr => rw [h.seq, hc.seq, ihl, ihr]
  | assign x e ih => rw [h.assign, hc.assign, ih]
  | name x => rw [h.name, hc.name]
  | int n => rw [h.int, hc.int]
  | help => rw [h.help, hc.help]
  | echo x => rw [h.echo, hc.echo]
  | landmark => rw [h.landmark, hc.landmark]
  | rotate e ih => rw [h.rotate, hc.rotate, ih]
  | move e ih => rw [h.move, hc.move, ih]
  | buy x e ih => rw [h.buy, hc.buy, ih]
  | sell x e ih => rw [h.sell, hc.sell, ih]
  | inventory => rw [h.inventory, hc.inventory]
  | marketPrices => rw [h.marketPrices, hc.marketPrices]
  | cityPrices => rw [h.cityPrices, hc.cityPrices]
  | quit => rw [h.quit, hc.quit]
  | stop => rw [h.stop, hc.stop]

/-- The text of a tree is the one way to obey the laws. The writer obeys them with all that it has still to do on
its list: behind what was written before, it writes each piece as if that were alone, in the order of the list. -/
theorem display_canonical :
    (∀ text : Expr → String, Canonical text ↔ text = display) ∧
      ∀ (out : String) (todo : List Piece),
        write out todo = out ++ String.join (todo.map fun p => write "" [p]) := by
  refine ⟨fun text => ⟨fun h => ?_, ?_⟩, fun out todo => ?_⟩
  · funext e
    rw [h.eq, display_eq]
  · rintro rfl
    have hdisplay : display = canonical := funext display_eq
    rw [hdisplay]
    exact canonical_laws
  · have halone : ∀ p : Piece, write "" [p] = p.shown := fun p => by simp [write_eq]
    simp only [halone]
    exact write_eq out todo

end RobotShell.Expr
