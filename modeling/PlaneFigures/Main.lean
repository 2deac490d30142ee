import PlaneFigures.Gallery

/-!
# Command line

Prints the report on the gallery.
-/

def main : IO Unit := IO.print PlaneFigures.Gallery.report
